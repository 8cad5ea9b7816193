import Mathlib.Order.Defs.LinearOrder
import Mathlib.Tactic.Order
import Responder.Oid.Basic

/-! The order of object identifiers, as a linear order. Nothing lies between an identifier and its
    successor (`successor_le_iff`), and what lies under a root is what lies from the root up to its next
    peer (`isUnder_iff_between`). -/

namespace Responder.Oid

instance : LinearOrder Oid where
  le a b := (compare a b).isLE
  lt a b := compare a b = .lt
  le_refl _ := Std.ReflCmp.isLE_rfl
  le_trans _ _ _ := Std.TransCmp.isLE_trans
  le_antisymm _ _ h₁ h₂ := Std.LawfulEqOrd.eq_of_compare (Std.OrientedCmp.isLE_antisymm h₁ h₂)
  le_total a b := by
    rw [Std.OrientedOrd.eq_swap (a := b)]
    cases compare a b <;> simp
  lt_iff_le_not_ge a b := by
    rw [Std.OrientedOrd.eq_swap (a := b)]
    cases compare a b <;> simp
  toDecidableLE _ _ := inferInstanceAs (Decidable (_ = true))
  toDecidableLT _ _ := inferInstanceAs (Decidable (_ = _))
  toDecidableEq := inferInstance
  toOrd := inferInstance
  min a b := if (compare a b).isLE then a else b
  max a b := if (compare a b).isLE then b else a
  min_def _ _ := rfl
  max_def _ _ := rfl
  compare_eq_compareOfLessAndEq a b := by
    unfold compareOfLessAndEq
    split
    · assumption
    · next hlt =>
      split
      · next heq => exact heq ▸ Std.ReflCmp.compare_self
      · next hne =>
        cases h : compare a b
        · exact absurd h hlt
        · exact absurd (Std.LawfulEqOrd.eq_of_compare h) hne
        · rfl

theorem lt_def {a b : Oid} : a < b ↔ compare a.arcs b.arcs = .lt := Iff.rfl

theorem le_def {a b : Oid} : a ≤ b ↔ compare a.arcs b.arcs ≠ .gt := by
  show (compare a.arcs b.arcs).isLE = true ↔ _
  cases compare a.arcs b.arcs <;> simp

/-! ### Paths -/

theorem compare_cons (x y : UInt32) (xs ys : List UInt32) :
    compare (x :: xs) (y :: ys) = (compare x y).then (compare xs ys) := List.compareLex_cons_cons

theorem then_eq_lt {o o' : Ordering} : o.then o' = .lt ↔ o = .lt ∨ o = .eq ∧ o' = .lt := by
  cases o <;> simp

theorem then_ne_gt {o o' : Ordering} : o.then o' ≠ .gt ↔ o = .lt ∨ o = .eq ∧ o' ≠ .gt := by
  cases o <;> simp

theorem compare_append_zero : ∀ xs ys : List UInt32, compare xs ys = .lt ↔ compare (xs ++ [0]) ys ≠ .gt
  | [], [] => by simp [show compare [(0 : UInt32)] [] = .gt from rfl]
  | [], y :: ys => by
    simp only [List.nil_append, compare_cons, then_ne_gt, show compare [] (y :: ys) = .lt from rfl, true_iff]
    rcases Nat.eq_zero_or_pos y.toNat with hy | hy
    · have hy : (0 : UInt32) = y := UInt32.toNat_inj.mp hy.symm
      exact Or.inr ⟨Std.compare_eq_iff_eq.mpr hy, by cases ys <;> simp [compare, List.compareLex]⟩
    · exact Or.inl (Std.compare_eq_lt.mpr (UInt32.lt_iff_toNat_lt.mpr hy))
  | x :: xs, [] => by
    simp [show compare (x :: xs) [] = .gt from rfl, show compare (x :: (xs ++ [0])) [] = .gt from rfl]
  | x :: xs, y :: ys => by
    rw [List.cons_append, compare_cons, compare_cons, then_eq_lt, then_ne_gt, compare_append_zero xs ys]

/-- Nothing lies between an identifier and its successor. -/
theorem successor_le_iff {a b : Oid} : a.successor ≤ b ↔ a < b := by
  rw [le_def, lt_def]
  exact (compare_append_zero a.arcs b.arcs).symm

theorem lt_successor (a : Oid) : a < a.successor := successor_le_iff.mp le_rfl

theorem lt_successor_iff {a b : Oid} : a < b.successor ↔ a ≤ b := by rw [← not_le, successor_le_iff, not_lt]

theorem empty_le (o : Oid) : Oid.empty ≤ o := by
  rw [le_def]
  obtain ⟨_ | ⟨x, xs⟩⟩ := o <;> simp [empty, compare, List.compareLex]

theorem prefix_iff_between : ∀ root arcs : List UInt32, root <+: arcs ↔
    compare root arcs ≠ .gt ∧ ∀ up, raise root = some up → compare arcs up = .lt
  | [], arcs => by
    simp only [List.nil_prefix, raise, reduceCtorEq, false_implies, implies_true, and_true, true_iff]
    cases arcs <;> simp [compare, List.compareLex]
  | x :: xs, [] => by simp [show compare (x :: xs) [] = .gt from rfl]
  | x :: xs, y :: ys => by
    rw [List.cons_prefix_cons, prefix_iff_between xs ys, compare_cons, then_ne_gt, Std.compare_eq_iff_eq,
      Std.compare_eq_lt]
    cases hraise : raise xs with
    | some up =>
      simp only [raise, hraise, Option.some.injEq, forall_eq', compare_cons, then_eq_lt, Std.compare_eq_iff_eq,
        Std.compare_eq_lt]
      constructor
      · rintro ⟨rfl, hle, hlt⟩
        exact ⟨Or.inr ⟨rfl, hle⟩, Or.inr ⟨rfl, hlt⟩⟩
      · rintro ⟨hlt | ⟨rfl, hle⟩, hlt' | ⟨heq, hup⟩⟩
        · exact absurd hlt (by simp only [UInt32.lt_iff_toNat_lt] at *; omega)
        · exact absurd hlt (by simp [heq])
        · exact absurd hlt' (by simp)
        · exact ⟨rfl, hle, hup⟩
    | none =>
      simp only [raise, hraise, reduceCtorEq, false_implies, implies_true, and_true]
      have hnil : ¬compare ys ([] : List UInt32) = .lt := by cases ys <;> simp [compare, List.compareLex]
      have hmax : maxArc.toNat = 4294967295 := rfl
      have hy := y.toNat_lt
      split
      · next hless =>
        have hone : (x + 1).toNat = x.toNat + 1 := by
          rw [UInt32.lt_iff_toNat_lt] at hless
          rw [UInt32.toNat_add]
          exact Nat.mod_eq_of_lt (by simp only [UInt32.reduceToNat]; omega)
        simp only [Option.some.injEq, forall_eq', compare_cons, then_eq_lt, hnil, and_false, or_false,
          Std.compare_eq_lt, UInt32.lt_iff_toNat_lt, hone, ← UInt32.toNat_inj]
        constructor
        · rintro ⟨heq, hle⟩
          exact ⟨Or.inr ⟨heq, hle⟩, by omega⟩
        · rintro ⟨hlt | hle, hup⟩
          · omega
          · exact hle
      · next hnot =>
        simp only [reduceCtorEq, false_implies, implies_true, and_true]
        rw [UInt32.lt_iff_toNat_lt] at hnot
        constructor
        · exact Or.inr
        · rintro (hlt | hle)
          · rw [UInt32.lt_iff_toNat_lt] at hlt
            omega
          · exact hle

/-- What lies under a root lies between the root and its next peer. -/
theorem isUnder_iff_between {o root : Oid} :
    o.isUnder root = true ↔ root ≤ o ∧ ∀ peer, root.nextPeer? = some peer → o < peer := by
  rw [isUnder_iff, prefix_iff_between, le_def]
  simp only [nextPeer?, Option.map_eq_some_iff, forall_exists_index, and_imp, lt_def]
  exact and_congr_right fun _ => ⟨fun h peer up hup hpeer => hpeer ▸ h up hup, fun h up hup => h ⟨up⟩ up hup rfl⟩

theorem parent_le {o parent : Oid} (h : o.parent? = some parent) : o.isUnder parent = true := by
  unfold parent? at h
  split at h
  · cases h
  · cases h
    exact isUnder_iff.mpr (List.dropLast_prefix o.arcs)

end Responder.Oid
