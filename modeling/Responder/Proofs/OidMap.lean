import Responder.Proofs.OidMap.Search
import Responder.Proofs.Range

/-! The laws of maps from object identifiers whose entries are in ascending order: what `get?` gives after
    `insert` and `erase`, that a map is what `get?` says it is (`eq_of_get?`), and that `firstIn?` gives
    the least entry of a range (`firstIn?_eq_some_iff`). -/

namespace Responder

/-! ### Sorted lists -/

section Sorted
variable {α : Type} {R : α → α → Prop} {p : α → Bool}

/-- In a sorted list a test that only lower elements pass cuts off the elements that pass it. -/
theorem takeWhile_eq_filter (hp : ∀ a b, R a b → p b = true → p a = true) :
    ∀ {l : List α}, l.Pairwise R → l.takeWhile p = l.filter p
  | [], _ => rfl
  | a :: l, hl => by
    rw [List.pairwise_cons] at hl
    rw [List.takeWhile_cons, List.filter_cons]
    split
    · rw [takeWhile_eq_filter hp hl.2]
    · next ha =>
      symm
      rw [List.filter_eq_nil_iff]
      exact fun b hb hpb => ha (hp a b (hl.1 b hb) hpb)

theorem dropWhile_eq_filter (hp : ∀ a b, R a b → p b = true → p a = true) :
    ∀ {l : List α}, l.Pairwise R → l.dropWhile p = l.filter fun a => !p a
  | [], _ => rfl
  | a :: l, hl => by
    rw [List.pairwise_cons] at hl
    rw [List.dropWhile_cons, List.filter_cons]
    cases ha : p a
    · simp only [Bool.false_eq_true, if_false, Bool.not_false, if_true, List.cons.injEq, true_and]
      symm
      rw [List.filter_eq_self]
      intro b hb
      cases hpb : p b
      · rfl
      · exact absurd (hp a b (hl.1 b hb) hpb) (by simp [ha])
    · simpa using dropWhile_eq_filter hp hl.2

/-- The first element of a sorted list that passes a test is the least one. -/
theorem find?_eq_some_iff_least (hR : ∀ a b, R a b → ¬R b a) {l : List α} (hl : l.Pairwise R) {a : α} :
    l.find? p = some a ↔ a ∈ l ∧ p a = true ∧ ∀ b ∈ l, p b = true → b = a ∨ R a b := by
  constructor
  · intro hfind
    obtain ⟨hpa, before, rest, rfl, hbefore⟩ := List.find?_eq_some_iff_append.mp hfind
    refine ⟨by simp, hpa, fun b hb hpb => ?_⟩
    rcases List.mem_append.mp hb with hb | hb
    · exact absurd hpb (by simpa using hbefore b hb)
    · rcases List.mem_cons.mp hb with rfl | hb
      · exact Or.inl rfl
      · exact Or.inr ((List.pairwise_cons.mp (List.pairwise_append.mp hl).2.1).1 b hb)
  · rintro ⟨ha, hpa, hleast⟩
    obtain ⟨b, hb⟩ := Option.isSome_iff_exists.mp (List.find?_isSome.mpr ⟨a, ha, hpa⟩)
    obtain ⟨hpb, before, rest, rfl, hbefore⟩ := List.find?_eq_some_iff_append.mp hb
    rcases hleast b (by simp) hpb with rfl | hab
    · exact hb
    · rcases List.mem_append.mp ha with ha | ha
      · exact absurd hpa (by simpa using hbefore a ha)
      · rcases List.mem_cons.mp ha with rfl | ha
        · exact hb
        · exact absurd hab (hR b a ((List.pairwise_cons.mp (List.pairwise_append.mp hl).2.1).1 a ha))

end Sorted

namespace OidMap

variable {α : Type} {m m' : OidMap α} {o o' : Oid} {v : α}

/-- The place of an identifier cuts the entries into those below it and the others, and again past it. -/
theorem parts_eq (hm : m.Sorted) (o : Oid) :
    m.entries.take (m.search o).index = m.entries.filter (fun e => decide (e.1 < o)) ∧
      m.startingAt o = m.entries.filter (fun e => decide (o ≤ e.1)) ∧
        m.after o = m.entries.filter fun e => decide (o < e.1) := by
  obtain ⟨below, above, hbelow, habove, hsplit⟩ := splits_search hm o
  have hbelow₁ : below.filter (fun e => decide (e.1 < o)) = below := by simpa using hbelow
  have hbelow₂ : below.filter (fun e => decide (o ≤ e.1)) = [] := by simpa using hbelow
  have hbelow₃ : below.filter (fun e => decide (o < e.1)) = [] := by
    simpa using fun v v' hv => (hbelow _ hv).le
  have habove₁ : above.filter (fun e => decide (e.1 < o)) = [] := by simpa using fun e he => (habove e he).le
  have habove₂ : above.filter (fun e => decide (o ≤ e.1)) = above := by simpa using fun e he => (habove e he).le
  have habove₃ : above.filter (fun e => decide (o < e.1)) = above := by simpa using habove
  rcases hsplit with ⟨hentries, hplace⟩ | ⟨v, hentries, hplace⟩
  · simp [startingAt, after, hplace, hentries, Place.index, Place.past, hbelow₁, hbelow₂, hbelow₃, habove₁, habove₂,
      habove₃]
  · simp [startingAt, after, hplace, hentries, Place.index, Place.past, hbelow₁, hbelow₂, hbelow₃, habove₁, habove₂,
      habove₃]

theorem startingAt_eq (hm : m.Sorted) : m.startingAt o = m.entries.filter fun e => decide (o ≤ e.1) :=
  (parts_eq hm o).2.1

theorem after_eq (hm : m.Sorted) : m.after o = m.entries.filter fun e => decide (o < e.1) := (parts_eq hm o).2.2

theorem take_eq (hm : m.Sorted) :
    m.entries.take (m.search o).index = m.entries.filter fun e => decide (e.1 < o) := (parts_eq hm o).1

theorem upTo_eq (hm : m.Sorted) : m.upTo o = m.entries.filter fun e => decide (e.1 ≤ o) := by
  obtain ⟨below, above, hbelow, habove, hsplit⟩ := splits_search hm o
  have hkept : below.filter (fun e => decide (e.1 ≤ o)) = below := by simpa using fun v v' hv => (hbelow _ hv).le
  have hleft : above.filter (fun e => decide (e.1 ≤ o)) = [] := by simpa using habove
  rcases hsplit with ⟨hentries, hplace⟩ | ⟨v, hentries, hplace⟩
  · simp [upTo, hplace, hentries, Place.past, hkept, hleft]
  · simp [upTo, hplace, hentries, Place.past, List.take_append, List.take_of_length_le, hkept, hleft]

theorem get?_eq_some_iff (hm : m.Sorted) : m.get? o = some v ↔ (o, v) ∈ m.entries := by
  obtain ⟨below, above, hbelow, habove, hsplit⟩ := splits_search hm o
  have hnotBelow : (o, v) ∉ below := fun hmem => absurd (hbelow _ hmem) (lt_irrefl o)
  have hnotAbove : (o, v) ∉ above := fun hmem => absurd (habove _ hmem) (lt_irrefl o)
  rcases hsplit with ⟨hentries, hplace⟩ | ⟨w, hentries, hplace⟩
  · simp [get?, hplace, hentries, hnotBelow, hnotAbove]
  · simp [get?, hplace, hentries, hnotBelow, hnotAbove, eq_comm]

/-! ### Changes -/

theorem mem_insert (hm : m.Sorted) {e : Oid × α} :
    e ∈ (m.insert o v).entries ↔ e = (o, v) ∨ e ∈ m.entries ∧ e.1 ≠ o := by
  simp only [insert, take_eq hm, after_eq hm, List.mem_append, List.mem_cons, List.mem_filter, decide_eq_true_eq]
  grind

theorem mem_erase (hm : m.Sorted) {e : Oid × α} : e ∈ (m.erase o).entries ↔ e ∈ m.entries ∧ e.1 ≠ o := by
  simp only [erase, take_eq hm, after_eq hm, List.mem_append, List.mem_filter, decide_eq_true_eq]
  grind

theorem Sorted.insert (hm : m.Sorted) (o : Oid) (v : α) : (m.insert o v).Sorted := by
  rw [Sorted, OidMap.insert, take_eq hm, after_eq hm, List.pairwise_append, List.pairwise_cons]
  refine ⟨List.Pairwise.filter _ hm, ⟨fun e he => ?_, List.Pairwise.filter _ hm⟩, fun a ha b hb => ?_⟩
  · simpa using (List.mem_filter.mp he).2
  · have ha : a.1 < o := by simpa using (List.mem_filter.mp ha).2
    rcases List.mem_cons.mp hb with rfl | hb
    · exact ha
    · have hb : o < b.1 := by simpa using (List.mem_filter.mp hb).2
      exact ha.trans hb

theorem Sorted.erase (hm : m.Sorted) (o : Oid) : (m.erase o).Sorted := by
  rw [Sorted, OidMap.erase, take_eq hm, after_eq hm, List.pairwise_append]
  refine ⟨List.Pairwise.filter _ hm, List.Pairwise.filter _ hm, fun a ha b hb => ?_⟩
  have ha : a.1 < o := by simpa using (List.mem_filter.mp ha).2
  have hb : o < b.1 := by simpa using (List.mem_filter.mp hb).2
  exact ha.trans hb

theorem get?_insert (hm : m.Sorted) : (m.insert o v).get? o' = if o' = o then some v else m.get? o' := by
  apply Option.ext
  intro w
  rw [get?_eq_some_iff (hm.insert o v), mem_insert hm]
  split
  · next h => simp [h, eq_comm]
  · next h => simp [h, get?_eq_some_iff hm]

theorem get?_erase (hm : m.Sorted) : (m.erase o).get? o' = if o' = o then none else m.get? o' := by
  apply Option.ext
  intro w
  rw [get?_eq_some_iff (hm.erase o), mem_erase hm]
  split
  · next h => simp [h]
  · next h => simp [h, get?_eq_some_iff hm]

/-- What is changed is the value of an entry, which stays where it is. -/
theorem modify_eq (hm : m.Sorted) {f : α → α} : m.modify o f = ((m.get? o).map fun v => m.insert o (f v)).getD m := by
  obtain ⟨below, above, -, -, ⟨-, hplace⟩ | ⟨v, hentries, hplace⟩⟩ := splits_search hm o
  · simp [OidMap.modify, get?, hplace]
  · simp [OidMap.modify, get?, OidMap.insert, after, hplace, hentries, Place.index, Place.past,
      List.modify_eq_take_cons_drop]

theorem contains_eq_isSome (hm : m.Sorted) : m.contains o = (m.get? o).isSome := by
  obtain ⟨below, above, -, -, ⟨-, hplace⟩ | ⟨v, hentries, hplace⟩⟩ := splits_search hm o
  · simp [OidMap.contains, get?, hplace]
  · simp [OidMap.contains, get?, hplace, hentries]

/-- A map is what `get?` says it is. -/
theorem eq_of_get? (hm : m.Sorted) (hm' : m'.Sorted) (h : ∀ o, m.get? o = m'.get? o) : m = m' := by
  have hirrefl : Std.Irrefl fun a b : Oid × α => a.1 < b.1 := ⟨fun a => lt_irrefl a.1⟩
  have hanti : Std.Antisymm fun a b : Oid × α => a.1 < b.1 :=
    ⟨fun a b hab hba => absurd (hab.trans hba) (lt_irrefl a.1)⟩
  obtain ⟨entries⟩ := m
  obtain ⟨entries'⟩ := m'
  congr 1
  refine List.Pairwise.eq_of_mem_iff hm hm' fun e => ?_
  rw [← get?_eq_some_iff (v := e.2) hm, ← get?_eq_some_iff (v := e.2) hm', h]

/-! ### The first entry of a range -/

variable {r : Range} {e : Oid × α}

/-- The search looks at one entry only, and finds what a search through all entries would find. -/
theorem firstIn?_eq_find? (hm : m.Sorted) : m.firstIn? r = m.entries.find? fun e => r.contains e.1 := by
  have hstart : (if r.lowerIncluded then m.startingAt r.lower else m.after r.lower) =
      m.entries.filter fun e => r.startsBy e.1 := by
    split
    · next h =>
      rw [startingAt_eq hm]
      refine List.filter_congr fun e _ => ?_
      rw [Bool.eq_iff_iff, Range.startsBy_iff_first, Range.first, if_pos h, decide_eq_true_eq]
    · next h =>
      rw [after_eq hm]
      refine List.filter_congr fun e _ => ?_
      rw [Bool.eq_iff_iff, Range.startsBy_iff_first, Range.first, if_neg h, Oid.successor_le_iff, decide_eq_true_eq]
  have hfind : (m.entries.find? fun e => r.contains e.1) =
      (m.entries.filter fun e => r.startsBy e.1).find? fun e => r.contains e.1 := by
    rw [List.find?_filter]
    refine congrArg (List.find? · _) (funext fun e => ?_)
    cases h : r.startsBy e.1 <;> simp [Range.contains, h]
  have hsorted : (m.entries.filter fun e => r.startsBy e.1).Pairwise fun a b => a.1 < b.1 := List.Pairwise.filter _ hm
  have hstarts : ∀ e ∈ m.entries.filter (fun e => r.startsBy e.1), r.startsBy e.1 = true :=
    fun e he => (List.mem_filter.mp he).2
  rw [firstIn?, hstart, hfind]
  cases hl : m.entries.filter fun e => r.startsBy e.1 with
  | nil => rfl
  | cons x rest =>
    rw [hl, List.pairwise_cons] at hsorted
    rw [hl] at hstarts
    have hx := hstarts x List.mem_cons_self
    rw [List.head?_cons, List.find?_cons, Option.filter_some, Range.contains, hx, Bool.true_and]
    cases hr : r.reaches x.1 with
    | true => rfl
    | false =>
      -- What does not reach the head does not reach what stands behind it.
      symm
      rw [if_neg (by simp), List.find?_eq_none]
      intro e he hre
      rw [Range.reaches_of_le (Range.contains_iff.mp hre).2 (hsorted.1 e he).le] at hr
      cases hr

theorem next?_eq_find? (hm : m.Sorted) : m.next? o = m.entries.find? fun e => decide (o < e.1) := by
  rw [next?, after_eq hm, List.head?_filter]

theorem firstIn?_eq_some_iff (hm : m.Sorted) : m.firstIn? r = some e ↔
    e ∈ m.entries ∧ r.contains e.1 = true ∧ ∀ e' ∈ m.entries, r.contains e'.1 = true → e' = e ∨ e.1 < e'.1 := by
  rw [firstIn?_eq_find? hm, find?_eq_some_iff_least (fun _ _ => lt_asymm) hm]

theorem firstIn?_eq_none_iff (hm : m.Sorted) :
    m.firstIn? r = none ↔ ∀ e ∈ m.entries, r.contains e.1 = false := by
  simp [firstIn?_eq_find? hm]

end OidMap
end Responder
