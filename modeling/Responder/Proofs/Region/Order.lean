import Responder.Proofs.Registry

/-! The order of regions as an order of keys. No two regions are equal in it, so that a sorted map can tell them all
    apart. Regions that share nothing are in it as their identifiers are, and what stands before the least region that
    reaches an identifier has ended below that, so that a walk may begin there (`order_is_sound`). -/

namespace Responder.Region

variable {a b : Region} {o x y : Oid}

/-- What stands before the least region that reaches an identifier contains nothing from there on. -/
theorem not_contains_of_order_reaching (h : order a (.reaching o) = .lt) (hle : o ≤ x) : a.contains x = false := by
  obtain ⟨up, hup, hbelow⟩ := order_reaching.mp h
  rw [← Bool.not_eq_true]
  intro hx
  rcases Range.reaches_iff.mp (Range.contains_iff.mp hx).2 up hup with hlt | ⟨rfl, -⟩ <;> order

/-- Two regions share no identifier. -/
def Apart (a b : Region) : Prop := ∀ o, ¬(a.contains o = true ∧ b.contains o = true)

theorem Apart.symm (h : Apart a b) : Apart b a := fun o ⟨hb, ha⟩ => h o ⟨ha, hb⟩

/-- Of regions that share nothing, in whatever contexts, the first lies below the other one. -/
theorem Apart.lt_of_order (h : Apart a b) (hlt : order a b = .lt) (hx : a.contains x = true)
    (hy : b.contains y = true) : x < y := by
  have hne : order a b ≠ .gt := by simp [hlt]
  by_contra hle
  exact h x ⟨hx, contains_of_order hne hx hy (not_lt.mp hle)⟩

/-- The order of regions is a strict total one, and only equal regions are equal in it. A region that stands before
the least one that reaches `o` contains nothing from `o` on, so that the entries from there on are all that do. Of two
regions that are not empty and share no identifier, the one with the smaller identifiers comes first. -/
theorem order_is_sound :
    (∀ a b : Region, (order a b = .eq ↔ a = b) ∧ (order a b = .gt ↔ order b a = .lt)) ∧
    (∀ a b c : Region, order a b = .lt → order b c = .lt → order a c = .lt) ∧
    (∀ (o : Oid) (s : Region), order s (.reaching o) = .lt → ∀ x, o ≤ x → s.contains x = false) ∧
    (∀ (o : Oid) (r : Registry), ∀ e ∈ r.entries, ∀ x, o ≤ x → e.region.contains x = true → e ∈ r.entriesFrom o) ∧
    ∀ a b : Region, (∃ x, a.contains x = true) → (∃ y, b.contains y = true) → Apart a b →
      (order a b = .lt ∧ ∀ x y, a.contains x = true → b.contains y = true → x < y) ∨
      (order a b = .gt ∧ ∀ x y, a.contains x = true → b.contains y = true → y < x) := by
  refine ⟨fun a b => ⟨Std.LawfulEqCmp.compare_eq_iff_eq, Std.OrientedCmp.gt_iff_lt⟩, fun a b c => Std.TransCmp.lt_trans,
    fun o s hs x hle => not_contains_of_order_reaching hs hle,
    fun o r e he x hle hx => Registry.mem_entriesFrom he (Range.contains_iff.mp hx).2 hle, ?_⟩
  rintro a b ⟨x, hx⟩ - hapart
  cases horder : order a b with
  | lt => exact Or.inl ⟨rfl, fun x y hx hy => hapart.lt_of_order horder hx hy⟩
  | eq =>
    obtain rfl := Std.LawfulEqCmp.eq_of_compare horder
    exact absurd ⟨hx, hx⟩ (hapart x)
  | gt =>
    have hlt := Std.OrientedCmp.gt_iff_lt.mp horder
    exact Or.inr ⟨rfl, fun x y hx hy => hapart.symm.lt_of_order hlt hy hx⟩

end Responder.Region
