import Responder.Proofs.Registration

/-! What regions contain, told from their ends. A region is empty if it contains nothing, two regions overlap if one
    context sees an identifier of both (`isEmpty_and_overlaps_iff`), and a region that is narrowed keeps just what lies
    above the upper end of the other range (`narrow_keeps`). -/

namespace Responder

namespace Range
variable {r other : Range} {o : Oid}

/-- What a range does not reach lies above its upper end, or is that end. -/
theorem reaches_eq_false_iff : r.reaches o = false ↔
    ∃ up, r.upper = some up ∧ (up < o ∨ o = up ∧ r.upperIncluded = false) := by
  rw [← Bool.not_eq_true, reaches_iff]
  push Not
  refine exists_congr fun up => and_congr_right fun _ => ?_
  constructor
  · rintro ⟨hle, hexcluded⟩
    rcases lt_or_eq_of_le hle with hlt | rfl
    · exact Or.inl hlt
    · exact Or.inr ⟨rfl, by simpa using hexcluded rfl⟩
  · rintro (hlt | ⟨rfl, hexcluded⟩)
    · exact ⟨hlt.le, fun heq => absurd heq hlt.ne'⟩
    · exact ⟨le_rfl, by simp [hexcluded]⟩

end Range

namespace Region
variable {s : Region} {t : Range} {o : Oid}

/-- Emptiness and overlap are exact: a region is empty just if it contains no identifier, ranges meet just if one
identifier is in both, in whichever order they are given, and regions overlap just if so and one context sees both. -/
theorem isEmpty_and_overlaps_iff (a b : Region) :
    (a.isEmpty = true ↔ ∀ o, a.contains o = false) ∧
    (a.meets b.toRange = true ↔ ∃ o, a.contains o = true ∧ b.contains o = true) ∧
    a.meets b.toRange = b.meets a.toRange ∧
    (a.overlaps b = true ↔
      (a.context = b.context ∨ a.context = none ∨ b.context = none) ∧
        ∃ o, a.contains o = true ∧ b.contains o = true) := by
  refine ⟨Range.isEmpty_iff, Range.meets_iff, Range.meets_comm, ?_⟩
  rw [overlaps_iff, Registry.contextsMatch_iff]
  rfl

/-- Above a range without an upper end nothing is left, so that what a narrowed region says is whether it is empty. -/
theorem narrow_eq (s : Region) (t : Range) : s.narrow t = (!(s.above t).isEmpty, s.above t) := by
  refine Prod.ext ?_ rfl
  show (t.upper.isSome && !(s.above t).isEmpty) = !(s.above t).isEmpty
  cases hleft : (s.above t).isEmpty with
  | true => simp
  | false =>
    obtain ⟨up, hup⟩ := Range.exists_upper_of_above hleft
    simp [hup]

theorem contains_above : (s.above t).contains o = true ↔
    s.contains o = true ∧ ∃ up, t.upper = some up ∧ (up < o ∨ o = up ∧ t.upperIncluded = false) :=
  Range.contains_above.trans (and_congr_right fun _ => Range.reaches_eq_false_iff)

theorem not_contains_of_above (h : (s.above t).contains o = true) : ¬t.contains o = true := fun hin => by
  have hpast := (Range.contains_above.mp h).2
  rw [(Range.contains_iff.mp hin).2] at hpast
  cases hpast

/-- A region that is narrowed keeps, of its identifiers, just those above the upper end of the other one, or at that end
where it is excluded; it says whether any are left; and its context and, unless nothing can be left, its own upper end
stay as they are. What is left shares nothing with the other region. -/
theorem narrow_keeps (s t : Region) :
    let left := (s.narrow t.toRange).2
    (∀ o, left.contains o = true ↔ s.contains o = true ∧
      ∃ up, t.upper = some up ∧ (up < o ∨ o = up ∧ t.upperIncluded = false)) ∧
    ((s.narrow t.toRange).1 = true ↔ ∃ o, left.contains o = true) ∧
    left.context = s.context ∧
    (∀ up, t.upper = some up → left.upper = s.upper ∧ left.upperIncluded = s.upperIncluded) ∧
    ∀ o, ¬(left.contains o = true ∧ t.contains o = true) := by
  intro left
  refine ⟨fun o => contains_above, ?_, rfl, fun up hup => ?_, fun o ⟨hleft, hin⟩ => not_contains_of_above hleft hin⟩
  · rw [Range.exists_contains_iff, narrow_eq]
    show (!left.isEmpty) = true ↔ left.isEmpty = false
    rw [Bool.not_eq_true']
  · show (s.toRange.above t.toRange).upper = _ ∧ (s.toRange.above t.toRange).upperIncluded = _
    rcases Range.above_eq (r := s.toRange) hup with heq | heq <;> rw [heq] <;> exact ⟨rfl, rfl⟩

end Region
end Responder
