import Mathlib.Data.List.Nodup
import Mathlib.Tactic.IntervalCases
import Responder.Proofs.Oid
import Responder.Proofs.Vacm.Greatest

/-! What a view contains. Of the subtrees that match an identifier, one decides: the longest, of equally long ones the
    greatest, and of those with one root the last. The view contains the identifier if that subtree is included
    (`View.contains_iff_decides`); and as long as no two subtrees have one root, their order says nothing. -/

namespace Responder.Vacm

namespace Subtree

/-! ### Matching -/

/-- The bits of a mask, the most significant one of each octet first. -/
def bits (mask : Octets) : List Bool := mask.flatMap fun octet => [7, 6, 5, 4, 3, 2, 1, 0].map octet.toNat.testBit

/-- The identifier is at least as long as the root, and has the arc of the root wherever the bit of the mask is set. A
bit beyond the mask counts as set. -/
structure Matches (s : Subtree) (o : Oid) : Prop where
  long : s.root.size ≤ o.size
  agrees : ∀ i < s.root.size, (bits s.mask).getD i true = true → s.root.arcs[i]? = o.arcs[i]?

variable {s t : Subtree} {o : Oid}

theorem isFixed_eq (mask : Octets) (position : Nat) : isFixed mask position = (bits mask).getD position true := by
  induction mask generalizing position with
  | nil => simp [isFixed, bits]
  | cons octet mask ih =>
    have hbits : bits (octet :: mask) = [7, 6, 5, 4, 3, 2, 1, 0].map octet.toNat.testBit ++ bits mask := rfl
    rcases Nat.lt_or_ge position 8 with hfirst | hrest
    · interval_cases position <;> rfl
    · obtain ⟨k, rfl⟩ := Nat.exists_eq_add_of_le hrest
      have hdiv : (8 + k) / 8 = k / 8 + 1 := by omega
      have hmod : (8 + k) % 8 = k % 8 := by omega
      have hskip : (bits (octet :: mask)).getD (8 + k) true = (bits mask).getD k true := by
        rw [hbits, List.getD_eq_getElem?_getD, List.getElem?_append_right (by simp)]
        simp
      rw [hskip, ← ih k, isFixed, hdiv, hmod]
      rfl

theorem agree_iff (mask : Octets) (position : Nat) (root arcs : List UInt32) : agree mask position root arcs = true ↔
    root.length ≤ arcs.length ∧
      ∀ i < root.length, isFixed mask (position + i) = true → root[i]? = arcs[i]? := by
  induction root generalizing position arcs with
  | nil => simp [agree]
  | cons expected root ih =>
    cases arcs with
    | nil => simp [agree]
    | cons actual arcs =>
      have hfirst : (!isFixed mask position || expected == actual) = true ↔
          (isFixed mask position = true → expected = actual) := by
        cases isFixed mask position <;> simp
      have hnext (i : Nat) : position + 1 + i = position + (i + 1) := by omega
      rw [agree, Bool.and_eq_true, hfirst, ih]
      simp only [List.length_cons, Nat.add_le_add_iff_right, Nat.forall_lt_succ_left, Nat.add_zero,
        List.getElem?_cons_zero, List.getElem?_cons_succ, Option.some.injEq, hnext]
      exact and_left_comm

theorem covers_iff : s.covers o = true ↔ s.Matches o := by
  rw [covers, agree_iff]
  simp only [Nat.zero_add, isFixed_eq]
  exact ⟨fun ⟨hlong, hagrees⟩ => ⟨hlong, hagrees⟩, fun h => ⟨h.long, h.agrees⟩⟩

/-! ### Deciding -/

/-- The root is shorter, or it is as long and less. -/
def Below (s t : Subtree) : Prop := s.root.size < t.root.size ∨ s.root.size = t.root.size ∧ s.root < t.root

/-- The subtree matches the identifier, and of all that do, those listed before it are below it or have the same root,
and those listed behind it are below it. -/
def Decides (family : List Subtree) (o : Oid) (s : Subtree) : Prop :=
  ∃ before after, family = before ++ s :: after ∧ s.Matches o ∧
    (∀ t ∈ before, t.Matches o → t.Below s ∨ t.root = s.root) ∧ ∀ t ∈ after, t.Matches o → t.Below s

instance : Std.TransCmp order :=
  inferInstanceAs (Std.TransCmp (compareLex (compareOn fun s : Subtree => s.root.size) (compareOn fun s => s.root)))

theorem order_eq_gt_iff : order s t = .gt ↔ t.Below s := by
  simp only [order, Below, Ordering.then_eq_gt, Nat.compare_eq_eq, compare_gt_iff_gt]
  exact or_congr_right (and_congr_left fun _ => eq_comm)

theorem order_eq_eq_iff : order s t = .eq ↔ s.root = t.root := by
  rw [order, Ordering.then_eq_eq, Nat.compare_eq_eq, compare_eq_iff_eq]
  exact and_iff_right_of_imp (congrArg Oid.size)

theorem order_ne_gt_iff : order s t ≠ .gt ↔ s.Below t ∨ s.root = t.root := by
  rw [ne_eq, Ordering.ne_gt_iff_isLE, Ordering.isLE_iff_eq_lt_or_eq_eq, ← Std.OrientedCmp.gt_iff_lt, order_eq_gt_iff,
    order_eq_eq_iff]

theorem prevails_iff {family : List Subtree} : Prevails order (fun s => s.covers o) family s ↔ Decides family o s := by
  simp only [Prevails, Decides, covers_iff, order_ne_gt_iff, order_eq_gt_iff]

end Subtree

open Subtree

namespace View
variable {v w : View} {o : Oid} {s : Subtree}

theorem contains_of_decides (h : Decides v.family o s) : v.contains o = s.included := by
  rw [contains, lastGreatest?_of_prevails (prevails_iff.mpr h)]

theorem exists_decides (v : View) (o : Oid) :
    (∃ s, Decides v.family o s) ∨ (∀ s ∈ v.family, ¬s.Matches o) ∧ v.contains o = false := by
  cases h : lastGreatest? order (v.family.filter fun s => s.covers o) with
  | some s => exact Or.inl ⟨s, prevails_iff.mp (prevails_of_lastGreatest? h)⟩
  | none =>
    refine Or.inr ⟨fun s hs hmatches => ?_, by rw [contains, h]⟩
    exact List.filter_eq_nil_iff.mp (lastGreatest?_eq_none_iff.mp h) s hs (covers_iff.mpr hmatches)

theorem contains_of_perm (h : v.family.Perm w.family) (hnodup : (v.family.map Subtree.root).Nodup) :
    w.contains o = v.contains o := by
  have hties : ∀ s ∈ v.family, ∀ t ∈ v.family, s.covers o = true → t.covers o = true → order s t = .eq → s = t :=
    fun s hs t ht _ _ heq => List.inj_on_of_nodup_map hnodup hs ht (order_eq_eq_iff.mp heq)
  rw [contains, contains, lastGreatest?_filter_of_perm h hties]

/-- An identifier is in the view if the subtree that decides about it is included, and it is not if that is excluded or
nothing matches. Where no two subtrees have one root, the same subtrees in any other order make the same view. -/
theorem contains_iff_decides (v : View) (o : Oid) :
    (v.contains o = true ↔ ∃ s, Decides v.family o s ∧ s.included = true) ∧
    (v.contains o = false ↔ (∀ s ∈ v.family, ¬s.Matches o) ∨ ∃ s, Decides v.family o s ∧ s.included = false) ∧
    ∀ w : View, v.family.Perm w.family → (v.family.map Subtree.root).Nodup → w.contains o = v.contains o := by
  refine ⟨⟨fun hin => ?_, ?_⟩, ⟨fun hout => ?_, ?_⟩, fun w => contains_of_perm⟩
  · rcases v.exists_decides o with ⟨s, hs⟩ | ⟨-, hout⟩
    · exact ⟨s, hs, contains_of_decides hs ▸ hin⟩
    · cases hin.symm.trans hout
  · rintro ⟨s, hs, hincluded⟩
    exact (contains_of_decides hs).trans hincluded
  · rcases v.exists_decides o with ⟨s, hs⟩ | ⟨hnone, -⟩
    · exact Or.inr ⟨s, hs, contains_of_decides hs ▸ hout⟩
    · exact Or.inl hnone
  · rintro (hnone | ⟨s, hs, hexcluded⟩)
    · rcases v.exists_decides o with ⟨s, hs⟩ | ⟨-, hout⟩
      · have hs := prevails_iff.mpr hs
        exact absurd (covers_iff.mp hs.passes) (hnone s hs.mem)
      · exact hout
    · exact (contains_of_decides hs).trans hexcluded

/-- Two columns of a table, the second one with a mask that lets the column differ. -/
def columns : View := ⟨[⟨⟨[1, 3, 6, 1, 2, 1, 2, 2, 1, 2]⟩, [0xFF, 0xC0], true⟩,
  ⟨⟨[1, 3, 6, 1, 2, 1, 2, 2, 1, 3]⟩, [0xFF, 0x80], false⟩]⟩

/-- Both columns match an instance of the first one; the second one is the greater, wherever it is listed. -/
theorem columns_contains : columns.contains ⟨[1, 3, 6, 1, 2, 1, 2, 2, 1, 2, 7]⟩ = false ∧
    (⟨columns.family.reverse⟩ : View).contains ⟨[1, 3, 6, 1, 2, 1, 2, 2, 1, 2, 7]⟩ = false := by
  obtain ⟨-, hout, hperm⟩ := columns.contains_iff_decides ⟨[1, 3, 6, 1, 2, 1, 2, 2, 1, 2, 7]⟩
  have hbelow : ∀ s ∈ [columns.family[0]], s.Matches ⟨[1, 3, 6, 1, 2, 1, 2, 2, 1, 2, 7]⟩ →
      s.Below columns.family[1] ∨ s.root = columns.family[1].root :=
    fun s hs _ => List.mem_singleton.mp hs ▸ Or.inl (Or.inr ⟨rfl, by decide⟩)
  have hexcluded := hout.mpr (Or.inr ⟨columns.family[1], ⟨[columns.family[0]], [], rfl,
    covers_iff.mp (by decide), hbelow, nofun⟩, rfl⟩)
  exact ⟨hexcluded, (hperm _ (List.reverse_perm _).symm (by decide)).trans hexcluded⟩

end View
end Responder.Vacm
