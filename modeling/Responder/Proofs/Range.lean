import Mathlib.Order.Lattice
import Responder.Proofs.Oid
import Responder.Region.Range

/-! What ranges of object identifiers contain. A range starts at its first identifier and goes on up to its
    upper end; two ranges meet just if some identifier lies in both (`meets_iff`), and what is left of a
    range above another one is what the other one does not reach (`contains_above`). -/

namespace Responder.Range

variable {r a b other : Range} {o o' : Oid}

/-- The least identifier that the range could contain. -/
def first (r : Range) : Oid := if r.lowerIncluded then r.lower else r.lower.successor

theorem startsBy_iff : r.startsBy o = true ↔ r.lower < o ∨ r.lower = o ∧ r.lowerIncluded = true := by
  unfold startsBy
  cases h : compare o r.lower
  · rw [compare_lt_iff_lt] at h
    simp only [Bool.false_eq_true, false_iff, not_or, not_and]
    exact ⟨by order, fun he => absurd h (by order)⟩
  · rw [compare_eq_iff_eq] at h
    simp [h]
  · rw [compare_gt_iff_gt] at h
    simp [h]

theorem startsBy_iff_first : r.startsBy o = true ↔ r.first ≤ o := by
  rw [startsBy_iff, first]
  split
  · next h => simp [h, le_iff_lt_or_eq]
  · next h => simp [h, Oid.successor_le_iff]

theorem reaches_iff : r.reaches o = true ↔ ∀ up, r.upper = some up → o < up ∨ o = up ∧ r.upperIncluded = true := by
  unfold reaches
  cases r.upper with
  | none => simp
  | some up =>
    simp only [Option.some.injEq, forall_eq']
    cases h : compare o up
    · rw [compare_lt_iff_lt] at h
      simp [h]
    · rw [compare_eq_iff_eq] at h
      simp [h]
    · rw [compare_gt_iff_gt] at h
      simp only [Bool.false_eq_true, false_iff, not_or, not_and]
      exact ⟨by order, fun he => absurd h (by order)⟩

theorem reaches_of_le (h : r.reaches o = true) (hle : o' ≤ o) : r.reaches o' = true := by
  rw [reaches_iff] at h ⊢
  intro up hup
  rcases h up hup with hlt | ⟨rfl, hincluded⟩
  · exact Or.inl (by order)
  · rcases lt_or_eq_of_le hle with hlt | heq
    · exact Or.inl hlt
    · exact Or.inr ⟨heq, hincluded⟩

theorem contains_iff : r.contains o = true ↔ r.first ≤ o ∧ r.reaches o = true := by
  rw [contains, Bool.and_eq_true, startsBy_iff_first]

@[simp] theorem contains_point : (point o).contains o' = true ↔ o' = o := by
  simp only [contains_iff, reaches_iff, first, point, if_true, Option.some.injEq, forall_eq', and_true]
  constructor
  · rintro ⟨hle, hlt | heq⟩
    · order
    · exact heq
  · rintro rfl
    exact ⟨le_rfl, Or.inr rfl⟩

@[simp] theorem contains_after : (after o).contains o' = true ↔ o < o' := by
  simp [contains_iff, reaches_iff, first, after, Oid.successor_le_iff]

@[simp] theorem contains_subtree : (subtree o).contains o' = o'.isUnder o := by
  rw [Bool.eq_iff_iff, contains_iff, reaches_iff, Oid.isUnder_iff_between]
  simp [first, subtree]

/-- The lower end of one range lies before the upper end of another one if that reaches its first identifier. -/
theorem opensBefore_iff : a.opensBefore b = true ↔ b.reaches a.first = true := by
  rw [reaches_iff, opensBefore]
  cases b.upper with
  | none => simp
  | some up =>
    simp only [Option.some.injEq, forall_eq']
    have hsucc := a.lower.lt_successor
    cases h : compare a.lower up
    · rw [compare_lt_iff_lt] at h
      have hle := Oid.successor_le_iff.mpr h
      cases hincluded : a.lowerIncluded
      · simp only [first, hincluded, Bool.false_or, Bool.or_eq_true, bne_iff_ne, ne_eq, Bool.false_eq_true, if_false,
          lt_iff_le_and_ne, hle, true_and, eq_comm (a := up)]
        by_cases heq : a.lower.successor = up <;> simp [heq]
      · simp [first, hincluded, h]
    · rw [compare_eq_iff_eq] at h
      subst h
      cases hincluded : a.lowerIncluded
      · simp only [first, hincluded, Bool.false_and, Bool.false_eq_true, if_false, false_iff, not_or, not_and]
        exact ⟨by order, fun he => absurd hsucc (by order)⟩
      · simp [first, hincluded]
    · rw [compare_gt_iff_gt] at h
      have hle : a.lower ≤ a.first := by
        unfold first
        split
        · exact le_rfl
        · order
      simp only [Bool.false_eq_true, false_iff, not_or, not_and]
      exact ⟨by order, fun he => absurd h (by order)⟩

theorem not_isEmpty_iff : r.isEmpty = false ↔ r.reaches r.first = true := by
  rw [isEmpty, Bool.not_eq_false', opensBefore_iff]

theorem isEmpty_iff : r.isEmpty = true ↔ ∀ o, r.contains o = false := by
  constructor
  · intro hempty o
    rw [← Bool.not_eq_true, contains_iff]
    rintro ⟨hle, hreaches⟩
    have hstart := not_isEmpty_iff.mpr (reaches_of_le hreaches hle)
    cases hempty.symm.trans hstart
  · intro hnone
    by_contra hempty
    have hstart := not_isEmpty_iff.mp (Bool.eq_false_of_not_eq_true hempty)
    exact absurd (contains_iff.mpr ⟨le_rfl, hstart⟩) (by simp [hnone])

theorem exists_contains_iff : (∃ o, r.contains o = true) ↔ r.isEmpty = false := by
  rw [← Bool.not_eq_true, isEmpty_iff]
  simp

/-- Two ranges meet just if some identifier lies in both. -/
theorem meets_iff : a.meets b = true ↔ ∃ o, a.contains o = true ∧ b.contains o = true := by
  simp only [meets, Bool.and_eq_true, Bool.not_eq_true', not_isEmpty_iff, opensBefore_iff, contains_iff]
  constructor
  · rintro ⟨⟨⟨ha, hb⟩, hba⟩, hab⟩
    rcases le_total a.first b.first with hle | hle
    · exact ⟨b.first, ⟨hle, hab⟩, le_rfl, hb⟩
    · exact ⟨a.first, ⟨le_rfl, ha⟩, hle, hba⟩
  · rintro ⟨o, ⟨ha, hra⟩, hb, hrb⟩
    exact ⟨⟨⟨reaches_of_le hra ha, reaches_of_le hrb hb⟩, reaches_of_le hrb ha⟩, reaches_of_le hra hb⟩

theorem meets_comm : a.meets b = b.meets a := by
  rw [Bool.eq_iff_iff, meets_iff, meets_iff]
  exact exists_congr fun _ => and_comm

/-- What a range with an end does not reach starts at or past that end. -/
theorem not_reaches_iff {up : Oid} (hup : r.upper = some up) :
    r.reaches o = false ↔ (if r.upperIncluded then up.successor else up) ≤ o := by
  rw [← Bool.not_eq_true, reaches_iff]
  simp only [hup, Option.some.injEq, forall_eq', not_or, not_and, not_lt]
  split
  · next h => simp [h, Oid.successor_le_iff, lt_iff_le_and_ne, eq_comm]
  · next h => simp [h]

theorem lower_le_first (r : Range) : r.lower ≤ r.first := by
  have hsucc := r.lower.lt_successor
  unfold first
  split <;> order

/-- The lower end moves up to the end of the other range unless it lies beyond it already. -/
theorem first_above_le_iff {up : Oid} (hup : other.upper = some up) : (r.above other).first ≤ o ↔
    r.first ≤ o ∧ (if other.upperIncluded then up.successor else up) ≤ o := by
  have hup_le : up ≤ if other.upperIncluded then up.successor else up := by
    have hsucc := up.lt_successor
    split <;> order
  have hle_succ : (if other.upperIncluded then up.successor else up) ≤ up.successor := by
    have hsucc := up.lt_successor
    split <;> order
  have hlower := r.lower_le_first
  cases h : compare up r.lower
  · rw [compare_lt_iff_lt] at h
    have hsame : r.above other = r := by simp [above, hup, compare_lt_iff_lt.mpr h]
    have hsucc := Oid.successor_le_iff.mpr h
    rw [hsame]
    exact ⟨fun hle => ⟨hle, by order⟩, And.left⟩
  · rw [compare_eq_iff_eq] at h
    subst h
    cases hl : r.lowerIncluded <;> cases hu : other.upperIncluded <;>
      simp [above, first, hup, hl, hu, Oid.successor_le_iff]
    all_goals exact le_of_lt
  · rw [compare_gt_iff_gt] at h
    have hfirst : r.first ≤ up := by
      have hsucc := Oid.successor_le_iff.mpr h
      unfold first
      split <;> order
    have hmoved : (r.above other).first = if other.upperIncluded then up.successor else up := by
      cases hu : other.upperIncluded <;> simp [above, first, hup, hu, compare_gt_iff_gt.mpr h]
    rw [hmoved]
    exact ⟨fun hle => ⟨by order, hle⟩, And.right⟩

/-- What is left of a range above another one is what the other one does not reach. -/
theorem contains_above :
    (r.above other).contains o = true ↔ r.contains o = true ∧ other.reaches o = false := by
  cases hother : other.upper with
  | none =>
    have hnothing : (r.above other).contains o = false := by
      rw [← Bool.not_eq_true, contains_iff, reaches_iff, first]
      simp only [above, hother, Bool.false_eq_true, if_false, Option.some.injEq, forall_eq', and_false, or_false,
        Oid.successor_le_iff]
      rintro ⟨hlt, hle⟩
      order
    have hreaches : other.reaches o = true := by simp [reaches_iff, hother]
    simp [hnothing, hreaches]
  | some up =>
    have hupper : (r.above other).reaches o = r.reaches o := by
      simp only [above, hother]
      cases compare up r.lower
      · rfl
      · cases r.lowerIncluded && other.upperIncluded <;> rfl
      · rfl
    rw [contains_iff, contains_iff, hupper, first_above_le_iff hother, not_reaches_iff hother]
    exact and_right_comm

/-- Something is left only above a range with an end. -/
theorem exists_upper_of_above (h : (r.above other).isEmpty = false) : ∃ up, other.upper = some up := by
  have hleft := (contains_above.mp (contains_iff.mpr ⟨le_rfl, not_isEmpty_iff.mp h⟩)).2
  cases hother : other.upper with
  | none => simp [reaches, hother] at hleft
  | some up => exact ⟨up, rfl⟩

theorem above_eq {up : Oid} (hup : other.upper = some up) :
    r.above other = { r with lower := up, lowerIncluded := !other.upperIncluded } ∨ r.above other = r := by
  simp only [above, hup]
  exact ite_eq_or_eq _ _ _

end Responder.Range
