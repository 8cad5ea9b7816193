import Mathlib.Data.List.Count
import Mathlib.Logic.Relation
import Responder.Proofs.Hesitating.Objects
import Responder.Proofs.Range
import Responder.Proofs.Resuming.Reading

/-! The course of a request, however its objects hesitate. Where the request comes to its end is settled by what it
    asks for and by what the objects hold, apart from how often it is taken up again (`Request.calm`). Every pass that
    leaves it incomplete leaves fewer calls that can still be put off (`Hesitation.doubts`). A service that sees to both
    (`Hesitation.Steers`) brings the request to its one end. -/

namespace Responder

/-- Steps lead from one thing to another. -/
def Goes {α : Type} (next : α → Option α) : α → α → Prop := Relation.ReflTransGen fun a b => next a = some b

/-- Steps that are determined have but one end. -/
theorem Goes.unique {α : Type} {next : α → Option α} {a b c : α} (hb : Goes next a b) (hc : Goes next a c)
    (hendb : next b = none) (hendc : next c = none) : b = c := by
  have hunique : Relator.RightUnique fun a b => next a = some b :=
    fun _ _ _ h h' => Option.some.inj (h.symm.trans h')
  have hstays {a b : α} (h : Goes next a b) (hend : next a = none) : a = b := by
    rcases Relation.ReflTransGen.cases_head h with rfl | ⟨c, hc, -⟩
    · rfl
    · cases hend.symm.trans hc
  rcases Relation.ReflTransGen.total_of_right_unique hunique hb hc with h | h
  · exact hstays h hendb
  · exact (hstays h hendc).symm

/-- The item, no longer deferred. -/
def Item.rest (x : Item) : Item := { x with deferred := false }

theorem Item.rest_eq {x : Item} (h : x.deferred = false) : x.rest = x := by
  rw [Item.rest, ← h]

/-- How far a request has come, and what the objects hold. -/
abbrev Standing (Obj : Type) := Request × (ObjectId → Obj)

namespace Request

/-- The request, apart from which items are deferred and how often it was taken up again. -/
def calm (r : Request) : Request := { r with items := r.items.map Item.rest, retries := 0 }

variable {r : Request}

theorem calm_retry : r.retry.calm = r.calm := by
  rw [calm, retry, calm, List.map_map]
  rfl

theorem calm_items (hrested : ∀ x ∈ r.items, x.deferred = false) : r.calm.items = r.items :=
  (List.map_congr_left fun x hx => Item.rest_eq (hrested x hx)).trans (List.map_id _)

/-- What is said of an item that does not depend on whether it is deferred. -/
theorem map_calm {α : Type} {f : Item → α} (hf : ∀ x, f x.rest = f x) : r.calm.items.map f = r.items.map f := by
  rw [calm, List.map_map]
  exact List.map_congr_left fun x _ => hf x

theorem hasError_calm : r.calm.hasError = r.hasError := by
  rw [hasError, hasError, calm, List.any_map]
  rfl

theorem isPhaseComplete_calm : r.calm.isPhaseComplete = r.isPhaseComplete := by
  rw [isPhaseComplete, isPhaseComplete, calm, List.all_map]
  rfl

theorem isComplete_calm : r.calm.isComplete = r.isComplete := by
  rw [isComplete, isPhaseComplete_calm]
  rfl

theorem advance?_calm : r.calm.advance? = r.advance?.map calm := by
  have hfollowing : r.calm.following? = r.following? := by
    have hprepared : r.calm.items.any Item.prepared = r.items.any Item.prepared := by
      rw [calm, List.any_map]
      rfl
    rw [following?, following?, hasError_calm, hprepared]
    rfl
  rw [advance?, advance?, hfollowing, Option.map_map]
  refine congrArg (Option.map · _) (funext fun phase => ?_)
  simp only [calm, Function.comp_apply, List.map_map]
  rfl

theorem finishAll_calm : r.calm.finishAll = r.finishAll.calm := by
  simp only [calm, finishAll, List.map_map]
  refine congrArg (fun items => ({ r with items, retries := 0 } : Request)) (List.map_congr_left fun x _ => ?_)
  show (if x.complete = true then x.rest else x.rest.finish) = (if x.complete = true then x else x.finish).rest
  split <;> rfl

theorem finishAll_of_complete (h : ∀ x ∈ r.items, x.complete = true) : r.finishAll = r := by
  have hitems : r.items.map (fun x => if x.complete then x else x.finish) = r.items.map id :=
    List.map_congr_left fun x hx => if_pos (h x hx)
  rw [finishAll, hitems, List.map_id]

theorem begin_calm : r.calm.begin = r.begin.calm := by
  unfold begin
  rw [advance?_calm, show r.calm.phase = r.phase from rfl, Option.getD_map, apply_ite calm]

/-- What is answered in the end. -/
theorem toResponse_calm : r.calm.toResponse = r.toResponse := by
  have hstatus : r.calm.reportedStatus = r.reportedStatus := by
    rw [reportedStatus, reportedStatus, map_calm fun _ => rfl]
    rfl
  have hindex : r.calm.errorIndex = r.errorIndex := by
    rw [errorIndex, errorIndex, calm, List.findIdx?_map]
    rfl
  have hheader : r.calm.responseHeader = r.responseHeader := by
    rw [responseHeader, responseHeader, hstatus, hindex]
    rfl
  rw [toResponse, toResponse, hheader, map_calm fun _ => rfl]

end Request

namespace Solo

variable (S : Solo)

/-- How many entries a search for an item has still ahead. -/
def ahead (x : Item) : Nat := S.entries.countP fun e => x.region.overlaps e.region

variable {S} {x y : Item} {e : Entry} {object : ObjectId} {writes : Bool}

/-- There are more laps than entries ahead. -/
theorem ahead_lt_bound {Obj : Type} [ManagedObject Obj] {s : State Obj} (hs : S.Holds s) :
    S.ahead x < Next.bound S.policy S.registry S.who x s := by
  rw [Next.bound, Registry.candidates_eq_filter, hs.entries, ahead, List.countP_eq_length_filter]
  exact Nat.lt_succ_of_le (Nat.le_add_right _ _)

/-- Above the region of an entry that was ahead there are fewer of them. -/
theorem ahead_above (he : e ∈ S.entries) (hover : x.region.overlaps e.region = true)
    (hregion : y.region = x.region.above e.region.toRange) : S.ahead y < S.ahead x := by
  have hnarrower (e' : Entry) (h : y.region.overlaps e'.region = true) : x.region.overlaps e'.region = true := by
    rw [hregion] at h
    obtain ⟨hcontext, o, ho, ho'⟩ := Region.overlaps_iff.mp h
    exact Region.overlaps_iff.mpr ⟨hcontext, o, (Range.contains_above.mp ho).1, ho'⟩
  have hover' : ¬y.region.overlaps e.region = true := by
    intro h
    rw [hregion] at h
    obtain ⟨-, o, ho, ho'⟩ := Region.overlaps_iff.mp h
    exact Bool.false_ne_true ((Range.contains_above.mp ho).2.symm.trans (Range.contains_iff.mp ho').2)
  have hfewer : S.ahead y = (S.entries.filter fun e => x.region.overlaps e.region).countP fun e =>
      y.region.overlaps e.region := by
    rw [ahead, List.countP_filter]
    refine List.countP_congr fun e' _ => ?_
    rw [Bool.and_eq_true]
    exact ⟨fun h => ⟨h, hnarrower e' h⟩, And.left⟩
  rw [hfewer, ahead, List.countP_eq_length_filter (p := fun e : Entry => x.region.overlaps e.region)]
  exact List.countP_lt_length_iff.mpr ⟨e, List.mem_filter.mpr ⟨he, hover⟩, Bool.not_eq_true _ ▸ hover'⟩

/-- What a look-up comes to is ahead. -/
theorem mem_of_entry (h : S.entry? x writes = some e) : e ∈ S.entries ∧ x.region.overlaps e.region = true := by
  have hmem := List.mem_of_find?_eq_some h
  rw [Registry.candidates, List.mem_filter] at hmem
  exact ⟨(List.dropWhile_suffix _).subset hmem.1, hmem.2⟩

theorem mem_of_found (h : S.found x writes = some object) : ∃ e ∈ S.entries, e.object = object := by
  obtain ⟨e, he, rfl⟩ := Option.map_eq_some_iff.mp h
  exact ⟨e, (mem_of_entry he).1, rfl⟩

variable (S)

/-- The request is in a phase that its service knows. -/
def Phased (r : Request) : Prop := S.who.kind ≠ .set → r.phase = .start ∨ r.phase = .process

end Solo

namespace Hesitation

variable {Obj' Obj : Type} [ManagedObject Obj'] [ManagedObject Obj] (H : Hesitation Obj' Obj) (S : Solo)

variable {H} in
/-- There are no doubts where nobody puts anything off. -/
theorem doubts_eq_zero {entries : List Entry} {objects : ObjectId → Obj'}
    (hprompt : ∀ object, H.left (objects object) = 0) : H.doubts entries objects = 0 := by
  refine List.sum_eq_zero fun left hleft => ?_
  obtain ⟨e, -, rfl⟩ := List.mem_map.mp hleft
  exact hprompt e.object

/-- What a pass leaves, which has led a request further. -/
structure Led (leads : Standing Obj → Standing Obj → Prop) (r : Request) (s : State Obj')
    (out : Request × Option Error) (t : State Obj') : Prop where
  holds : S.Holds t
  quiet : out.2 = none
  pdu : out.1.pdu = r.pdu
  phased : S.Phased out.1
  leads : leads (r.calm, H.world s.objects) (out.1.calm, H.world t.objects)
  less : out.1.isComplete = true ∨ H.doubts S.entries t.objects < H.doubts S.entries s.objects

/-- Every pass of a service leads a request further to its one end. -/
structure Steers (run : Request → Doing Obj' (Request × Option Error))
    (leads : Standing Obj → Standing Obj → Prop) : Prop where
  trans : ∀ {c c' c''}, leads c c' → leads c' c'' → leads c c''
  unique : ∀ {c c' c''}, c.1.status.isError = false → leads c c' → leads c c'' → c'.1.isComplete = true →
    c''.1.isComplete = true → c' = c''
  pass : ∀ {r : Request} {s : State Obj'}, S.Holds s → S.Ready r → S.Phased r →
    r.Apt S.who (fun object => ∃ e ∈ S.entries, e.object = object) → (run r).Gives s (H.Led S leads r s)

end Hesitation
end Responder
