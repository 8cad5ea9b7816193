import Responder.Proofs.Vacm.Greatest
import Responder.Vacm.Tables

/-! The access row that counts for a request. It is one of those that are for the request, and none of these outranks
    it; only a tie leaves it to the order of the table (`Tables.row?_selects`). A request of a higher level is never
    given a row of a lower rank. -/

namespace Responder.Vacm

namespace AccessRow

variable {a b c row : AccessRow} {group context : Octets} {model : SecurityModel} {level higher : SecurityLevel}

/-- The row is for requests of a group in a context, under a model and at a level. -/
structure Eligible (row : AccessRow) (group context : Octets) (model : SecurityModel) (level : SecurityLevel) :
    Prop where
  group : row.group = group
  context : match row.contextMatch with
    | .exact => row.context = context
    | .start => row.context <+: context
  model : row.model = model ∨ row.model = .any
  level : row.level.rank ≤ level.rank

/-- The first row is preferred: it is for one model and the other one for any; or else it is for one context and the
other one for those that begin alike; or else its context is longer; or else its level is higher. -/
inductive Outranks (a b : AccessRow) : Prop
  | model (ha : a.model ≠ .any) (hb : b.model = .any)
  | contextMatch (hmodel : a.model = .any ↔ b.model = .any) (ha : a.contextMatch = .exact)
      (hb : b.contextMatch = .start)
  | context (hmodel : a.model = .any ↔ b.model = .any) (hmatch : a.contextMatch = b.contextMatch)
      (hlonger : b.context.length < a.context.length)
  | level (hmodel : a.model = .any ↔ b.model = .any) (hmatch : a.contextMatch = b.contextMatch)
      (hcontext : a.context.length = b.context.length) (hhigher : b.level.rank < a.level.rank)

/-- Nothing that counts tells the rows apart. -/
structure Ties (a b : AccessRow) : Prop where
  model : a.model = .any ↔ b.model = .any
  contextMatch : a.contextMatch = b.contextMatch
  context : a.context.length = b.context.length
  level : a.level.rank = b.level.rank

theorem isFor_iff : row.isFor group context model level = true ↔ row.Eligible group context model level := by
  have hcontext : row.isForContext context = true ↔ match row.contextMatch with
      | .exact => row.context = context
      | .start => row.context <+: context := by
    unfold isForContext
    cases row.contextMatch <;> simp
  have hlevel : (compare row.level level != .gt) = true ↔ row.level.rank ≤ level.rank := by
    rw [bne_iff_ne]
    exact Nat.compare_ne_gt
  simp only [isFor, Bool.and_eq_true, Bool.or_eq_true, beq_iff_eq, hcontext, hlevel]
  exact ⟨fun ⟨⟨⟨hgroup, hcontext⟩, hmodel⟩, hlevel⟩ => ⟨hgroup, hcontext, hmodel, hlevel⟩,
    fun h => ⟨⟨⟨h.group, h.context⟩, h.model⟩, h.level⟩⟩

instance (model : SecurityModel) : Std.TransCmp (order model) :=
  inferInstanceAs (Std.TransCmp (compareLex (compareOn fun row : AccessRow => row.model == model)
    (compareLex (compareOn fun row => row.contextMatch == .exact)
      (compareLex (compareOn fun row => row.context.length) (compareOn fun row => row.level.rank)))))

theorem compare_contextMatch_eq_gt_iff :
    compare (a.contextMatch == .exact) (b.contextMatch == .exact) = .gt ↔
      a.contextMatch = .exact ∧ b.contextMatch = .start := by
  cases a.contextMatch <;> cases b.contextMatch <;> decide

theorem compare_contextMatch_eq_eq_iff :
    compare (a.contextMatch == .exact) (b.contextMatch == .exact) = .eq ↔ a.contextMatch = b.contextMatch := by
  cases a.contextMatch <;> cases b.contextMatch <;> decide

theorem compare_level_eq_gt_iff : compare a.level b.level = .gt ↔ b.level.rank < a.level.rank := Nat.compare_eq_gt

theorem compare_level_eq_eq_iff : compare a.level b.level = .eq ↔ a.level.rank = b.level.rank := Nat.compare_eq_eq

section Models
variable (ha : a.model = model ∨ a.model = .any) (hb : b.model = model ∨ b.model = .any)
include ha hb

/-- Among rows that are for the model of a request, those for just this model come before those for any. -/
theorem compare_model_eq_gt_iff :
    compare (a.model == model) (b.model == model) = .gt ↔ a.model ≠ .any ∧ b.model = .any := by
  rcases ha with ha | ha <;> rcases hb with hb | hb <;> cases model <;> simp only [ha, hb] <;> decide

theorem compare_model_eq_eq_iff :
    compare (a.model == model) (b.model == model) = .eq ↔ (a.model = .any ↔ b.model = .any) := by
  rcases ha with ha | ha <;> rcases hb with hb | hb <;> cases model <;> simp only [ha, hb] <;> decide

theorem order_eq_gt_iff : order model a b = .gt ↔ a.Outranks b := by
  simp only [order, Ordering.then_eq_gt, compare_model_eq_gt_iff ha hb, compare_model_eq_eq_iff ha hb,
    compare_contextMatch_eq_gt_iff, compare_contextMatch_eq_eq_iff, compare_level_eq_gt_iff, Nat.compare_eq_gt,
    Nat.compare_eq_eq]
  constructor
  · rintro (⟨ha, hb⟩ | ⟨hmodel, ⟨ha, hb⟩ | ⟨hmatch, hlonger | ⟨hcontext, hhigher⟩⟩⟩)
    · exact .model ha hb
    · exact .contextMatch hmodel ha hb
    · exact .context hmodel hmatch hlonger
    · exact .level hmodel hmatch hcontext hhigher
  · rintro (⟨ha, hb⟩ | ⟨hmodel, ha, hb⟩ | ⟨hmodel, hmatch, hlonger⟩ | ⟨hmodel, hmatch, hcontext, hhigher⟩)
    · exact Or.inl ⟨ha, hb⟩
    · exact Or.inr ⟨hmodel, Or.inl ⟨ha, hb⟩⟩
    · exact Or.inr ⟨hmodel, Or.inr ⟨hmatch, Or.inl hlonger⟩⟩
    · exact Or.inr ⟨hmodel, Or.inr ⟨hmatch, Or.inr ⟨hcontext, hhigher⟩⟩⟩

theorem ties_of_order (h : order model a b = .eq) : a.Ties b := by
  simp only [order, Ordering.then_eq_eq, compare_model_eq_eq_iff ha hb, compare_contextMatch_eq_eq_iff,
    Nat.compare_eq_eq, compare_level_eq_eq_iff] at h
  exact ⟨h.1, h.2.1, h.2.2.1, h.2.2.2⟩

end Models

theorem Eligible.of_higher (h : row.Eligible group context model level) (hhigher : level.rank ≤ higher.rank) :
    row.Eligible group context model higher :=
  ⟨h.group, h.context, h.model, Nat.le_trans h.level hhigher⟩

end AccessRow

namespace Tables
variable {t : Tables} {group context : Octets} {model : SecurityModel} {level : SecurityLevel} {row other : AccessRow}

theorem row?_eq_some_iff : t.row? group context model level = some row ↔
    Prevails (AccessRow.order model) (fun row => row.isFor group context model level) t.rows row :=
  lastGreatest?_filter_eq_some_iff

theorem exists_row? (h : row ∈ t.rows) (hrow : row.Eligible group context model level) :
    ∃ row', t.row? group context model level = some row' := by
  refine Option.ne_none_iff_exists'.mp fun hnone => ?_
  exact List.filter_eq_nil_iff.mp (lastGreatest?_eq_none_iff.mp hnone) row h (AccessRow.isFor_iff.mpr hrow)

theorem eligible_of_row? (h : t.row? group context model level = some row) :
    row ∈ t.rows ∧ row.Eligible group context model level :=
  have hprevails := row?_eq_some_iff.mp h
  ⟨hprevails.mem, AccessRow.isFor_iff.mp hprevails.passes⟩

theorem not_outranks_of_row? (h : t.row? group context model level = some row) (hmem : other ∈ t.rows)
    (hother : other.Eligible group context model level) : ¬other.Outranks row := by
  have hprevails := row?_eq_some_iff.mp h
  rw [← AccessRow.order_eq_gt_iff hother.model (eligible_of_row? h).2.model]
  exact hprevails.ne_gt hmem (AccessRow.isFor_iff.mpr hother)

theorem row?_of_perm {t' : Tables} (h : t.rows.Perm t'.rows) (hties : ∀ a ∈ t.rows, ∀ b ∈ t.rows,
    a.Eligible group context model level → b.Eligible group context model level → a.Ties b → a = b) :
    t'.row? group context model level = t.row? group context model level := by
  refine lastGreatest?_filter_of_perm h fun a ha b hb hpa hpb heq => ?_
  have hpa := AccessRow.isFor_iff.mp hpa
  have hpb := AccessRow.isFor_iff.mp hpb
  exact hties a ha b hb hpa hpb (AccessRow.ties_of_order hpa.model hpb.model heq)

/-- A request is given a row just if there is one for it. The row is one of these, and none of them outranks it. Any
other order of the table gives the same row, unless two different ones of them tie. And at a higher level the request is
given a row again, one that is not outranked by the first. -/
theorem row?_selects (t : Tables) (group context : Octets) (model : SecurityModel) (level : SecurityLevel) :
    ((t.row? group context model level).isSome = true ↔
      ∃ row ∈ t.rows, row.Eligible group context model level) ∧
    (∀ row, t.row? group context model level = some row →
      (row ∈ t.rows ∧ row.Eligible group context model level) ∧
        ∀ other ∈ t.rows, other.Eligible group context model level → ¬other.Outranks row) ∧
    (∀ t' : Tables, t.rows.Perm t'.rows →
      (∀ a ∈ t.rows, ∀ b ∈ t.rows, a.Eligible group context model level → b.Eligible group context model level →
        a.Ties b → a = b) →
      t'.row? group context model level = t.row? group context model level) ∧
    ∀ higher row, level.rank ≤ higher.rank → t.row? group context model level = some row →
      ∃ row', t.row? group context model higher = some row' ∧ ¬row.Outranks row' := by
  refine ⟨⟨fun hsome => ?_, ?_⟩, fun row h => ⟨eligible_of_row? h, fun _ => not_outranks_of_row? h⟩,
    fun _ => row?_of_perm, fun higher row hhigher h => ?_⟩
  · obtain ⟨row, hrow⟩ := Option.isSome_iff_exists.mp hsome
    exact ⟨row, eligible_of_row? hrow⟩
  · rintro ⟨row, hmem, hrow⟩
    exact Option.isSome_iff_exists.mpr (exists_row? hmem hrow)
  · obtain ⟨hmem, hrow⟩ := eligible_of_row? h
    have hrow := hrow.of_higher hhigher
    obtain ⟨row', hrow'⟩ := exists_row? hmem hrow
    exact ⟨row', hrow', not_outranks_of_row? hrow' hmem hrow⟩

/-- A row for all contexts and models, one for some contexts under a model, and one for a single context at a high
level. -/
def graded : Tables where
  rows := [{ group := [103], context := [98, 49], model := .v2c, level := .authPriv, readView := [3] },
    { group := [103], contextMatch := .start, readView := [1] },
    { group := [103], context := [98], contextMatch := .start, model := .v2c, readView := [2] }]

/-- Without protection the request is given the third row, whatever the order of the table; at the highest level it is
given one that the third one does not outrank. -/
theorem graded_row? : graded.row? [103] [98, 49] .v2c .noAuthNoPriv = graded.rows[2]? ∧
    (⟨[], graded.rows.reverse, []⟩ : Tables).row? [103] [98, 49] .v2c .noAuthNoPriv = graded.rows[2]? ∧
    ∃ row, graded.row? [103] [98, 49] .v2c .authPriv = some row ∧ ¬graded.rows[2].Outranks row := by
  obtain ⟨-, -, hperm, hhigher⟩ := graded.row?_selects [103] [98, 49] .v2c .noAuthNoPriv
  have hgiven : graded.row? [103] [98, 49] .v2c .noAuthNoPriv = some graded.rows[2] := by decide
  have hlengths : ∀ a ∈ graded.rows, ∀ b ∈ graded.rows, a.context.length = b.context.length → a = b := by decide
  refine ⟨hgiven, (hperm _ (List.reverse_perm _).symm ?_).trans hgiven, hhigher .authPriv _ (by decide) hgiven⟩
  exact fun a ha b hb _ _ hties => hlengths a ha b hb hties.context

end Tables
end Responder.Vacm
