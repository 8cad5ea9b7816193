import Mathlib.Data.List.Induction
import Responder.Vacm.View

/-! The element that prevails in a list: of those that pass a test, the last of the greatest ones. `lastGreatest?` finds
    it (`lastGreatest?_filter_eq_some_iff`), and where no two different elements tie it does not matter in which order
    they are listed (`lastGreatest?_filter_of_perm`). -/

namespace Responder.Vacm

variable {α : Type} {order : α → α → Ordering} {test : α → Bool} {xs ys : List α} {x y : α}

/-- The element passes the test, nothing before it that does is greater, and everything behind it that does is less. -/
def Prevails (order : α → α → Ordering) (test : α → Bool) (xs : List α) (x : α) : Prop :=
  ∃ before after, xs = before ++ x :: after ∧ test x = true ∧ (∀ y ∈ before, test y = true → order y x ≠ .gt) ∧
    ∀ y ∈ after, test y = true → order x y = .gt

theorem Prevails.mem (h : Prevails order test xs x) : x ∈ xs := by
  obtain ⟨before, after, rfl, -⟩ := h
  exact List.mem_append_right _ List.mem_cons_self

theorem Prevails.passes (h : Prevails order test xs x) : test x = true := by
  obtain ⟨-, -, -, hx, -⟩ := h
  exact hx

/-! ### Going through a list -/

theorem lastGreatest?_concat (xs : List α) (y : α) : lastGreatest? order (xs ++ [y]) =
    match lastGreatest? order xs with
    | none => some y
    | some best => if order best y == .gt then some best else some y := by
  rw [lastGreatest?, List.foldl_append]
  rfl

theorem lastGreatest?_eq_none_iff : lastGreatest? order xs = none ↔ xs = [] := by
  induction xs using List.reverseRecOn with
  | nil => exact iff_of_true rfl rfl
  | append_singleton xs y =>
    rw [lastGreatest?_concat]
    refine iff_of_false ?_ (by simp)
    split
    · nofun
    · split <;> nofun

theorem mem_of_lastGreatest? (h : lastGreatest? order xs = some x) : x ∈ xs := by
  induction xs using List.reverseRecOn generalizing x with
  | nil => cases h
  | append_singleton xs y ih =>
    rw [lastGreatest?_concat] at h
    rw [List.mem_append, List.mem_singleton]
    split at h
    · exact Or.inr (Option.some.inj h).symm
    · next best hbest =>
      split at h
      · exact Or.inl (ih (hbest.trans h))
      · exact Or.inr (Option.some.inj h).symm

/-- Elements that are less do not displace what was found before them. -/
theorem lastGreatest?_append_of_gt (h : lastGreatest? order xs = some x) (hys : ∀ y ∈ ys, order x y = .gt) :
    lastGreatest? order (xs ++ ys) = some x := by
  induction ys using List.reverseRecOn with
  | nil => rwa [List.append_nil]
  | append_singleton ys y ih =>
    have hfront := ih fun y hy => hys y (List.mem_append_left _ hy)
    have hgt : order x y = .gt := hys y (List.mem_append_right _ (List.mem_singleton.mpr rfl))
    rw [← List.append_assoc, lastGreatest?_concat, hfront]
    exact if_pos (beq_iff_eq.mpr hgt)

theorem lastGreatest?_of_prevails (h : Prevails order test xs x) : lastGreatest? order (xs.filter test) = some x := by
  obtain ⟨before, after, rfl, hx, hbefore, hafter⟩ := h
  have hfront : lastGreatest? order (before.filter test ++ [x]) = some x := by
    rw [lastGreatest?_concat]
    split
    · rfl
    · next best hbest =>
      obtain ⟨hmem, htest⟩ := List.mem_filter.mp (mem_of_lastGreatest? hbest)
      exact if_neg fun hgt => hbefore best hmem htest (eq_of_beq hgt)
  rw [List.filter_append, List.filter_cons_of_pos hx, List.append_cons]
  refine lastGreatest?_append_of_gt hfront fun y hy => ?_
  obtain ⟨hmem, htest⟩ := List.mem_filter.mp hy
  exact hafter y hmem htest

section Order
variable [Std.TransCmp order]

theorem Prevails.ne_gt (h : Prevails order test xs x) (hy : y ∈ xs) (htest : test y = true) : order y x ≠ .gt := by
  obtain ⟨before, after, rfl, -, hbefore, hafter⟩ := h
  rcases List.mem_append.mp hy with hmem | hmem
  · exact hbefore y hmem htest
  · rcases List.mem_cons.mp hmem with rfl | hmem
    · have hself : order y y = .eq := Std.ReflCmp.compare_self
      rw [hself]
      decide
    · rw [Std.OrientedCmp.lt_of_gt (hafter y hmem htest)]
      decide

/-- What is found prevails. The induction goes from the front of the list, as the search does. -/
theorem prevails_of_lastGreatest? (h : lastGreatest? order (xs.filter test) = some x) : Prevails order test xs x := by
  induction xs using List.reverseRecOn generalizing x with
  | nil => cases h
  | append_singleton xs y ih =>
    have hbehind (hx : Prevails order test xs x) (hy : test y = true → order x y = .gt) :
        Prevails order test (xs ++ [y]) x := by
      obtain ⟨before, after, rfl, hpasses, hbefore, hafter⟩ := hx
      refine ⟨before, after ++ [y], by simp, hpasses, hbefore, fun z hz => ?_⟩
      rcases List.mem_append.mp hz with hz | hz
      · exact hafter z hz
      · exact List.mem_singleton.mp hz ▸ hy
    rw [List.filter_append] at h
    cases htest : test y with
    | false =>
      rw [List.filter_cons_of_neg (Bool.not_eq_true _ ▸ htest), List.filter_nil, List.append_nil] at h
      exact hbehind (ih h) fun hy => absurd (htest.symm.trans hy) Bool.false_ne_true
    | true =>
      rw [List.filter_cons_of_pos htest, List.filter_nil, lastGreatest?_concat] at h
      have hlast (hle : ∀ z ∈ xs, test z = true → order z y ≠ .gt) : Prevails order test (xs ++ [y]) y :=
        ⟨xs, [], rfl, htest, hle, nofun⟩
      split at h
      · next hnone =>
        obtain rfl := Option.some.inj h
        refine hlast fun z hz hpasses => ?_
        have hmem := List.mem_filter.mpr ⟨hz, hpasses⟩
        rw [lastGreatest?_eq_none_iff.mp hnone] at hmem
        cases hmem
      · next best hbest =>
        split at h
        · next hgt =>
          obtain rfl := Option.some.inj h
          exact hbehind (ih hbest) fun _ => eq_of_beq hgt
        · next hle =>
          obtain rfl := Option.some.inj h
          refine hlast fun z hz hpasses => ?_
          have hbelow := Ordering.ne_gt_iff_isLE.mp ((ih hbest).ne_gt hz hpasses)
          have habove := Ordering.ne_gt_iff_isLE.mp fun hgt => hle (beq_iff_eq.mpr hgt)
          exact Ordering.ne_gt_iff_isLE.mpr (Std.TransCmp.isLE_trans hbelow habove)

theorem lastGreatest?_filter_eq_some_iff : lastGreatest? order (xs.filter test) = some x ↔ Prevails order test xs x :=
  ⟨prevails_of_lastGreatest?, lastGreatest?_of_prevails⟩

/-- Where no two different elements tie, another order of the list changes nothing. -/
theorem lastGreatest?_filter_of_perm (h : xs.Perm ys)
    (hties : ∀ a ∈ xs, ∀ b ∈ xs, test a = true → test b = true → order a b = .eq → a = b) :
    lastGreatest? order (ys.filter test) = lastGreatest? order (xs.filter test) := by
  cases hx : lastGreatest? order (xs.filter test) with
  | none =>
    have hnil := lastGreatest?_eq_none_iff.mp hx
    exact lastGreatest?_eq_none_iff.mpr ((hnil ▸ h.filter test).nil_eq).symm
  | some x =>
    cases hy : lastGreatest? order (ys.filter test) with
    | none =>
      have hnil := lastGreatest?_eq_none_iff.mp hy
      rw [lastGreatest?_eq_none_iff.mpr (hnil ▸ h.filter test).eq_nil] at hx
      cases hx
    | some y =>
      have hx := prevails_of_lastGreatest? hx
      have hy := prevails_of_lastGreatest? hy
      have hmem := h.mem_iff.mpr hy.mem
      have hle := Ordering.ne_gt_iff_isLE.mp (hx.ne_gt hmem hy.passes)
      have hge := Ordering.ne_gt_iff_isLE.mp (hy.ne_gt (h.mem_iff.mp hx.mem) hx.passes)
      rw [hties y hmem x hx.mem hy.passes hx.passes (Std.OrientedCmp.isLE_antisymm hle hge)]

end Order
end Responder.Vacm
