import Mathlib.Data.Finmap
import Responder.Proofs.OidMap

/-! Sequences of changes. A map that starts out empty stays in ascending order, whatever is inserted, erased, changed or
    cleared, and so it goes along with the finite map that the same changes make (`Mirrors.perform`): both find the same
    values on the way, and in the end they hold the same. What follows an identifier, and what comes first in a range,
    are then the least of all that the finite map holds (`mirrors_of_changes`). -/

namespace Responder.OidMap

variable {α : Type} {m : OidMap α} {o : Oid}

/-- A finite map from object identifiers, in no order. -/
abbrev Contents (α : Type) := Finmap fun _ : Oid => α

def Contents.perform (c : Contents α) : Change α → Option α × Contents α
  | .insert o a => (c.lookup o, c.insert o a)
  | .erase o => (c.lookup o, c.erase o)
  | .modify o f => (c.lookup o, ((c.lookup o).map fun v => c.insert o (f v)).getD c)
  | .clear => (none, ∅)

/-- Makes changes one after the other, and gives what they find. -/
def Change.performAll {σ : Type} (perform : σ → Change α → Option α × σ) : σ → List (Change α) → List (Option α) × σ
  | s, [] => ([], s)
  | s, change :: changes =>
    let (found, s) := perform s change
    let (rest, s) := performAll perform s changes
    (found :: rest, s)

/-- Of the identifiers in a finite map that pass a test, the least one with its value, or nothing if there is none. -/
def Contents.First (c : Contents α) (p : Oid → Prop) : Option (Oid × α) → Prop
  | some e => IsLeast {o | o ∈ c ∧ p o} e.1 ∧ c.lookup e.1 = some e.2
  | none => ∀ o ∈ c, ¬p o

/-- The map is in ascending order and holds what the finite map holds. -/
structure Mirrors (m : OidMap α) (c : Contents α) : Prop where
  sorted : m.Sorted
  get? : ∀ o, m.get? o = c.lookup o

variable {c : Contents α}

theorem mirrors_empty : (empty : OidMap α).Mirrors ∅ := ⟨sorted_empty, fun _ => rfl⟩

theorem Mirrors.insert (h : m.Mirrors c) (o : Oid) (a : α) : (m.insert o a).Mirrors (c.insert o a) := by
  refine ⟨h.sorted.insert o a, fun o' => ?_⟩
  rw [get?_insert h.sorted]
  split
  · next heq => rw [heq, Finmap.lookup_insert]
  · next hne => rw [Finmap.lookup_insert_of_ne _ hne, h.get?]

theorem Mirrors.erase (h : m.Mirrors c) (o : Oid) : (m.erase o).Mirrors (c.erase o) := by
  refine ⟨h.sorted.erase o, fun o' => ?_⟩
  rw [get?_erase h.sorted]
  split
  · next heq => rw [heq, Finmap.lookup_erase]
  · next hne => rw [Finmap.lookup_erase_ne hne, h.get?]

/-- A change finds the same in both, and leaves them alike. -/
theorem Mirrors.perform (h : m.Mirrors c) (change : Change α) :
    (m.perform change).1 = (c.perform change).1 ∧ (m.perform change).2.Mirrors (c.perform change).2 := by
  cases change with
  | insert o a => exact ⟨h.get? o, h.insert o a⟩
  | erase o => exact ⟨h.get? o, h.erase o⟩
  | modify o f =>
    refine ⟨h.get? o, ?_⟩
    show (m.modify o f).Mirrors (((c.lookup o).map fun v => c.insert o (f v)).getD c)
    rw [modify_eq h.sorted, h.get?]
    cases c.lookup o with
    | none => exact h
    | some v => exact h.insert o (f v)
  | clear => exact ⟨rfl, mirrors_empty⟩

theorem Mirrors.performAll (h : m.Mirrors c) (changes : List (Change α)) :
    (Change.performAll OidMap.perform m changes).1 = (Change.performAll Contents.perform c changes).1 ∧
      (Change.performAll OidMap.perform m changes).2.Mirrors (Change.performAll Contents.perform c changes).2 := by
  induction changes generalizing m c with
  | nil => exact ⟨rfl, h⟩
  | cons change changes ih =>
    obtain ⟨hfound, hnext⟩ := h.perform change
    obtain ⟨hrest, hlast⟩ := ih hnext
    exact ⟨List.cons_eq_cons.mpr ⟨hfound, hrest⟩, hlast⟩

theorem Mirrors.mem_entries_iff (h : m.Mirrors c) {o : Oid} {v : α} : (o, v) ∈ m.entries ↔ c.lookup o = some v := by
  rw [← get?_eq_some_iff h.sorted, h.get?]

theorem Mirrors.contains_iff (h : m.Mirrors c) : m.contains o = true ↔ o ∈ c := by
  rw [contains_eq_isSome h.sorted, h.get?, Finmap.lookup_isSome]

theorem Mirrors.size_eq (h : m.Mirrors c) : m.size = c.keys.card := by
  have hnodup : (m.entries.map Prod.fst).Nodup := List.pairwise_map.mpr (h.sorted.imp ne_of_lt)
  have hkeys : (m.entries.map Prod.fst).toFinset = c.keys := by
    ext o
    simp [h.mem_entries_iff, Finmap.mem_keys, Finmap.mem_iff]
  rw [← hkeys, List.toFinset_card_of_nodup hnodup, List.length_map]
  rfl

theorem Mirrors.first_find? (h : m.Mirrors c) (p : Oid → Bool) :
    c.First (fun o => p o = true) (m.entries.find? fun e => p e.1) := by
  cases hfind : m.entries.find? fun e => p e.1 with
  | none =>
    intro o ho
    obtain ⟨v, hv⟩ := Finmap.mem_iff.mp ho
    simpa using List.find?_eq_none.mp hfind _ (h.mem_entries_iff.mpr hv)
  | some e =>
    obtain ⟨hmem, hpasses, hleast⟩ := (find?_eq_some_iff_least (fun _ _ => lt_asymm) h.sorted).mp hfind
    have hvalue := h.mem_entries_iff.mp hmem
    refine ⟨⟨⟨Finmap.mem_of_lookup_eq_some hvalue, hpasses⟩, fun o ⟨ho, hpo⟩ => ?_⟩, hvalue⟩
    obtain ⟨v, hv⟩ := Finmap.mem_iff.mp ho
    rcases hleast (o, v) (h.mem_entries_iff.mpr hv) hpo with rfl | hlt
    · exact le_rfl
    · exact hlt.le

/-- After any changes of an empty map its entries are in ascending order, each change has found what it finds in the
finite map that the same changes make, and what is in the map is what is in that one. What follows an identifier is the
least entry above it, and what comes first in a range is the least entry of those that are in the range. -/
theorem mirrors_of_changes (changes : List (Change α)) :
    let m := (Change.performAll OidMap.perform empty changes).2
    let c := (Change.performAll Contents.perform ∅ changes).2
    (Change.performAll OidMap.perform empty changes).1 = (Change.performAll Contents.perform ∅ changes).1 ∧
    (m.entries.Pairwise fun a b => a.1 < b.1) ∧
    (∀ o, m.get? o = c.lookup o) ∧
    (∀ o, m.contains o = true ↔ o ∈ c) ∧
    m.size = c.keys.card ∧
    (∀ o, c.First (o < ·) (m.next? o)) ∧
    ∀ r : Range, c.First (fun o => r.contains o = true) (m.firstIn? r) := by
  intro m c
  obtain ⟨hfound, h⟩ : _ ∧ m.Mirrors c := mirrors_empty.performAll changes
  refine ⟨hfound, h.sorted, h.get?, fun o => h.contains_iff, h.size_eq, fun o => ?_, fun r => ?_⟩
  · rw [next?_eq_find? h.sorted]
    simpa using h.first_find? fun o' => decide (o < o')
  · rw [firstIn?_eq_find? h.sorted]
    exact h.first_find? r.contains

end Responder.OidMap
