import Responder.Proofs.Range

/-! Inclusion of ranges. A range that is not empty lies within another one if that starts no later and goes on at least
    as far, by the first identifier of each and the first one past it (`forall_contains_iff`). `covers` goes by the
    ends, and an end has two names: what is past `x` starts with the successor of `x`. Where one range uses the one name
    and the other range the other, `covers` does not see that they agree; in all other cases it decides inclusion
    (`covers_iff_forall_contains`). -/

namespace Responder.Range

variable {a b r : Range} {o : Oid}

/-! ### Cuts -/

/-- Where an end cuts the order: the least identifier above the cut, which is just before the end or just past it. -/
def cut (past : Bool) (o : Oid) : Oid := if past then o.successor else o

/-- Cuts are in the order of the ends, but the cut past an identifier is also the one before its successor. -/
theorem cut_le_cut_iff {x y : Oid} {p q : Bool} : cut p x ≤ cut q y ↔
    (x < y ∨ x = y ∧ (p = false ∨ q = true)) ∨ x = y.successor ∧ p = false ∧ q = true := by
  cases p <;> cases q
  · simp [cut, le_iff_lt_or_eq]
  · simp [cut, le_iff_lt_or_eq (b := y.successor), Oid.lt_successor_iff, le_iff_lt_or_eq (b := y)]
  · simp [cut, Oid.successor_le_iff]
  · rw [cut, cut, if_pos rfl, if_pos rfl, Oid.successor_le_iff, Oid.lt_successor_iff]
    simp [le_iff_lt_or_eq]

theorem first_eq_cut (r : Range) : r.first = cut (!r.lowerIncluded) r.lower := by
  unfold first cut
  cases r.lowerIncluded <;> rfl

/-- The least identifier that the range does not reach, if it ends. -/
def limit? (r : Range) : Option Oid := r.upper.map (cut r.upperIncluded)

theorem reaches_iff_lt_limit : r.reaches o = true ↔ ∀ l, r.limit? = some l → o < l := by
  cases hupper : r.upper with
  | none => simp [reaches, limit?, hupper]
  | some up =>
    have hlimit : r.limit? = some (cut r.upperIncluded up) := by simp [limit?, hupper]
    rw [← not_iff_not, Bool.not_eq_true, not_reaches_iff hupper, hlimit]
    simp [cut]

theorem forall_contains_iff (hb : b.isEmpty = false) : (∀ o, b.contains o = true → a.contains o = true) ↔
    a.first ≤ b.first ∧ ∀ l, a.limit? = some l → ∃ l', b.limit? = some l' ∧ l' ≤ l := by
  have hstart := not_isEmpty_iff.mp hb
  constructor
  · intro hwithin
    obtain ⟨hle, -⟩ := contains_iff.mp (hwithin b.first (contains_iff.mpr ⟨le_rfl, hstart⟩))
    refine ⟨hle, fun l hl => ?_⟩
    by_contra hlonger
    -- The range goes on at the limit of the other one, or starts past it.
    have hreaches : b.reaches (max b.first l) = true := by
      rw [reaches_iff_lt_limit] at hstart ⊢
      intro l' hl'
      refine max_lt (hstart l' hl') ?_
      exact not_le.mp fun hle' => hlonger ⟨l', hl', hle'⟩
    have hin := hwithin _ (contains_iff.mpr ⟨le_max_left _ _, hreaches⟩)
    have hlt := reaches_iff_lt_limit.mp (contains_iff.mp hin).2 l hl
    exact absurd hlt (not_lt_of_ge (le_max_right _ _))
  · rintro ⟨hle, hends⟩ o ho
    obtain ⟨hfirst, hreaches⟩ := contains_iff.mp ho
    refine contains_iff.mpr ⟨hle.trans hfirst, reaches_iff_lt_limit.mpr fun l hl => ?_⟩
    obtain ⟨l', hl', hle'⟩ := hends l hl
    exact (reaches_iff_lt_limit.mp hreaches l' hl').trans_le hle'

/-! ### Ends with two names -/

/-- The first range starts with the successor of the identifier past which the second one starts. -/
structure LowerSeam (a b : Range) : Prop where
  lower : a.lower = b.lower.successor
  included : a.lowerIncluded = true
  excluded : b.lowerIncluded = false

/-- The second range ends just before the successor of the identifier with which the first one ends. -/
structure UpperSeam (a b : Range) : Prop where
  upper : ∃ up, a.upper = some up ∧ b.upper = some up.successor
  included : a.upperIncluded = true
  excluded : b.upperIncluded = false

theorem lowerCovers_iff : covers.lowerCovers a b = true ↔
    a.lower < b.lower ∨ a.lower = b.lower ∧ (a.lowerIncluded = true ∨ b.lowerIncluded = false) := by
  unfold covers.lowerCovers
  cases h : compare a.lower b.lower
  · rw [compare_lt_iff_lt] at h
    simp [h]
  · rw [compare_eq_iff_eq] at h
    simp [h]
  · rw [compare_gt_iff_gt] at h
    simp [h.ne', not_lt_of_gt h]

theorem upperCovers_iff : covers.upperCovers a b = true ↔
    ∀ mine, a.upper = some mine → ∃ theirs, b.upper = some theirs ∧
      (theirs < mine ∨ theirs = mine ∧ (b.upperIncluded = false ∨ a.upperIncluded = true)) := by
  unfold covers.upperCovers
  cases a.upper with
  | none => simp
  | some mine =>
    cases b.upper with
    | none => simp
    | some theirs =>
      simp only [Option.some.injEq, exists_eq_left', forall_eq']
      cases h : compare mine theirs
      · rw [compare_lt_iff_lt] at h
        simp [h.ne', not_lt_of_gt h]
      · rw [compare_eq_iff_eq] at h
        simp [h, or_comm]
      · rw [compare_gt_iff_gt] at h
        simp [h]

theorem first_le_first_iff : a.first ≤ b.first ↔ covers.lowerCovers a b = true ∨ LowerSeam a b := by
  rw [first_eq_cut, first_eq_cut, cut_le_cut_iff, lowerCovers_iff]
  refine or_congr (by simp) ?_
  exact ⟨fun ⟨hlower, ha, hb⟩ => ⟨hlower, by simpa using ha, by simpa using hb⟩,
    fun h => ⟨h.lower, by simp [h.included], by simp [h.excluded]⟩⟩

theorem limit_le_limit_iff : (∀ l, a.limit? = some l → ∃ l', b.limit? = some l' ∧ l' ≤ l) ↔
    covers.upperCovers a b = true ∨ UpperSeam a b := by
  rw [upperCovers_iff]
  cases ha : a.upper with
  | none => simp [limit?, ha]
  | some mine =>
    cases hb : b.upper with
    | none =>
      have hseam : ¬UpperSeam a b := fun h => by
        obtain ⟨up, -, hup⟩ := h.upper
        simp [hb] at hup
      simp [limit?, ha, hb, hseam]
    | some theirs =>
      simp only [limit?, ha, hb, Option.map_some, Option.some.injEq, forall_eq', exists_eq_left', cut_le_cut_iff]
      refine or_congr_right ⟨fun ⟨hup, hexcluded, hincluded⟩ => ?_, fun h => ?_⟩
      · exact ⟨⟨mine, ha, hb.trans (congrArg some hup)⟩, hincluded, hexcluded⟩
      · obtain ⟨up, hmine, htheirs⟩ := h.upper
        obtain rfl : mine = up := Option.some.inj (ha.symm.trans hmine)
        exact ⟨Option.some.inj (hb.symm.trans htheirs), h.excluded, h.included⟩

theorem LowerSeam.not_lowerCovers (h : LowerSeam a b) : ¬covers.lowerCovers a b = true := by
  have hlt := b.lower.lt_successor
  rw [lowerCovers_iff, h.lower]
  rintro (hbelow | ⟨heq, -⟩) <;> order

theorem UpperSeam.not_upperCovers (h : UpperSeam a b) : ¬covers.upperCovers a b = true := by
  obtain ⟨up, hmine, htheirs⟩ := h.upper
  have hlt := up.lt_successor
  rw [upperCovers_iff]
  intro hcovers
  obtain ⟨theirs, hup, hbelow | ⟨heq, -⟩⟩ := hcovers up hmine <;>
    obtain rfl := Option.some.inj (htheirs.symm.trans hup) <;> order

/-- One range covers another one just if it contains all identifiers of that, but for the case that there are any and
the two start alike, or end alike, by an end with two names. -/
theorem covers_iff_forall_contains (a b : Range) : a.covers b = true ↔
    (∀ o, b.contains o = true → a.contains o = true) ∧
      ((∃ o, b.contains o = true) → ¬LowerSeam a b ∧ ¬UpperSeam a b) := by
  rw [covers, Bool.or_eq_true, Bool.and_eq_true]
  cases hb : b.isEmpty with
  | true =>
    have hnone := isEmpty_iff.mp hb
    simp [hnone]
  | false =>
    have hsome := exists_contains_iff.mpr hb
    rw [forall_contains_iff hb, first_le_first_iff, limit_le_limit_iff]
    constructor
    · rintro (hempty | ⟨hlower, hupper⟩)
      · cases hempty
      · exact ⟨⟨Or.inl hlower, Or.inl hupper⟩,
          fun _ => ⟨fun h => h.not_lowerCovers hlower, fun h => h.not_upperCovers hupper⟩⟩
    · rintro ⟨⟨hlower, hupper⟩, hseams⟩
      obtain ⟨hnotLower, hnotUpper⟩ := hseams hsome
      exact Or.inr ⟨hlower.resolve_right hnotLower, hupper.resolve_right hnotUpper⟩

/-- What is past `1.3`, up to `1.4`. -/
def band : Range := ⟨⟨[1, 3, 0]⟩, true, some ⟨[1, 4]⟩, true⟩

/-- The same by the other name of the lower end. -/
def bandPast : Range := ⟨⟨[1, 3]⟩, false, some ⟨[1, 4]⟩, true⟩

/-- The same by the other name of the upper end. -/
def bandBefore : Range := ⟨⟨[1, 3, 0]⟩, true, some ⟨[1, 4, 0]⟩, false⟩

/-- Neither is covered by the first range, which contains all there is in them. -/
theorem not_covers_of_seams :
    ((∀ o, bandPast.contains o = true → band.contains o = true) ∧ band.covers bandPast = false) ∧
    (∀ o, bandBefore.contains o = true → band.contains o = true) ∧ band.covers bandBefore = false := by
  have hpast := (forall_contains_iff (a := band) (b := bandPast) (by decide)).mpr
    ⟨by decide, fun l hl => ⟨l, hl, le_rfl⟩⟩
  have hbefore := (forall_contains_iff (a := band) (b := bandBefore) (by decide)).mpr
    ⟨by decide, fun l hl => ⟨l, hl, le_rfl⟩⟩
  exact ⟨⟨hpast, by decide⟩, hbefore, by decide⟩

end Responder.Range
