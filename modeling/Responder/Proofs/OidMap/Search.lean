import Mathlib.Data.List.Sort
import Responder.OidMap
import Responder.Proofs.Oid

/-! The search for the place of an identifier. In a map whose entries are in ascending order the place lies within a
    stretch before which all entries are below the identifier, and behind which all are above it. Halving keeps such a
    stretch (`Encloses.halve`), and when one entry is left that tells the place (`splits_search`). -/

namespace Responder.OidMap

variable {α : Type} {m : OidMap α} {o : Oid} {e : Oid × α} {base size i : Nat}

/-- The entries are in ascending order. -/
def Sorted (m : OidMap α) : Prop := m.entries.Pairwise fun a b => a.1 < b.1

theorem sorted_empty : (empty : OidMap α).Sorted := .nil

/-- What stands before an entry is below it, and what stands behind it is above. -/
theorem Sorted.around (hm : m.Sorted) (he : m.entries[i]? = some e) :
    m.entries = m.entries.take i ++ e :: m.entries.drop (i + 1) ∧
      (∀ e' ∈ m.entries.take i, e'.1 < e.1) ∧ ∀ e' ∈ m.entries.drop (i + 1), e.1 < e'.1 := by
  obtain ⟨hlt, rfl⟩ := List.getElem?_eq_some_iff.mp he
  have hsplit : m.entries = m.entries.take i ++ m.entries[i] :: m.entries.drop (i + 1) := by
    rw [← List.drop_eq_getElem_cons hlt, List.take_append_drop]
  have hsorted := hm
  rw [Sorted, hsplit, List.pairwise_append, List.pairwise_cons] at hsorted
  exact ⟨hsplit, fun e' he' => hsorted.2.2 e' he' _ List.mem_cons_self, hsorted.2.1.1⟩

/-- What stands before the stretch is below the identifier, and what stands behind it is above. -/
structure Encloses (m : OidMap α) (o : Oid) (base size : Nat) : Prop where
  within : base + size ≤ m.size
  below : ∀ e ∈ m.entries.take base, e.1 < o
  above : ∀ e ∈ m.entries.drop (base + size), o < e.1

theorem encloses_all (m : OidMap α) (o : Oid) : m.Encloses o 0 m.size := ⟨by omega, by simp, by simp [OidMap.size]⟩

theorem Encloses.halve (h : m.Encloses o base size) (hm : m.Sorted) :
    m.Encloses o (m.halve o (base, size)).1 (m.halve o (base, size)).2 := by
  unfold OidMap.halve
  by_cases hsize : size ≤ 1
  · simpa only [if_pos hsize] using h
  have hwithin : base + size ≤ m.entries.length := h.within
  have hmiddle : base + size / 2 < m.entries.length := by omega
  have he := List.getElem?_eq_getElem hmiddle
  obtain ⟨-, hbefore, hbehind⟩ := hm.around he
  simp only [if_neg hsize, he, Option.any_some, beq_iff_eq, compare_gt_iff_gt]
  split
  · next hgt =>
    refine ⟨show _ ≤ m.entries.length by omega, h.below, fun e hmem => ?_⟩
    -- What is left of the stretch goes on at least up to the middle.
    have hmem : e ∈ m.entries.drop (base + size / 2) := List.drop_subset_drop_left _ (by omega) hmem
    rw [List.drop_eq_getElem_cons hmiddle] at hmem
    rcases List.mem_cons.mp hmem with rfl | hmem
    · exact hgt
    · exact hgt.trans (hbehind e hmem)
  · next hle =>
    have hend : base + size / 2 + (size - size / 2) = base + size := by omega
    refine ⟨hend ▸ h.within, fun e hmem => (hbefore e hmem).trans_le (not_lt.mp hle), fun e hmem => ?_⟩
    exact h.above e (hend ▸ hmem)

theorem halve_snd (m : OidMap α) (o : Oid) (base size : Nat) :
    (m.halve o (base, size)).2 = if size ≤ 1 then size else size - size / 2 := by
  simp only [OidMap.halve]
  split <;> rfl

/-- Each halving drops at least one entry, until one is left. -/
theorem encloses_repeat (hm : m.Sorted) (o : Oid) (n : Nat) :
    let left := Nat.repeat (m.halve o) n (0, m.size)
    m.Encloses o left.1 left.2 ∧ left.2 ≤ max 1 (m.size - n) := by
  induction n with
  | zero => exact ⟨m.encloses_all o, Nat.le_max_right _ _⟩
  | succ n ih =>
    obtain ⟨hencloses, hsize⟩ := ih
    refine ⟨hencloses.halve hm, ?_⟩
    show (m.halve o (Nat.repeat (m.halve o) n (0, m.size))).2 ≤ _
    rw [halve_snd]
    split <;> omega

/-- The place parts the entries below the identifier from those above it. If it is taken, that entry is the one of the
identifier. -/
def Splits (m : OidMap α) (o : Oid) (place : Place) : Prop :=
  ∃ below above, (∀ e ∈ below, e.1 < o) ∧ (∀ e ∈ above, o < e.1) ∧
    (m.entries = below ++ above ∧ place = .free below.length ∨
      ∃ v, m.entries = below ++ (o, v) :: above ∧ place = .taken below.length)

theorem Encloses.splits (h : m.Encloses o base size) (hm : m.Sorted) (hone : size ≤ 1) :
    m.Splits o (m.placeAt o base) := by
  have hlength : (m.entries.take base).length = base :=
    List.length_take_of_le (Nat.le_of_add_right_le h.within)
  unfold placeAt
  cases he : m.entries[base]? with
  | none =>
    have hend := List.getElem?_eq_none_iff.mp he
    refine ⟨m.entries.take base, [], h.below, by simp, Or.inl ⟨?_, by rw [hlength]⟩⟩
    rw [List.take_of_length_le hend, List.append_nil]
  | some e =>
    obtain ⟨hsplit, -, -⟩ := hm.around he
    have habove : ∀ e ∈ m.entries.drop (base + 1), o < e.1 := fun e hmem =>
      h.above e (List.drop_subset_drop_left _ (by omega) hmem)
    cases hcompare : compare e.1 o with
    | lt =>
      refine ⟨m.entries.take base ++ [e], m.entries.drop (base + 1), ?_, habove, Or.inl ⟨?_, ?_⟩⟩
      · intro e' hmem
        rcases List.mem_append.mp hmem with hmem | hmem
        · exact h.below e' hmem
        · exact List.mem_singleton.mp hmem ▸ compare_lt_iff_lt.mp hcompare
      · rw [List.append_assoc]
        exact hsplit
      · simp [hcompare, hlength]
    | eq =>
      obtain rfl := compare_eq_iff_eq.mp hcompare
      exact ⟨_, _, h.below, habove, Or.inr ⟨e.2, hsplit, by simp [hlength]⟩⟩
    | gt =>
      refine ⟨m.entries.take base, e :: m.entries.drop (base + 1), h.below, fun e' hmem => ?_,
        Or.inl ⟨hsplit, by simp [hcompare, hlength]⟩⟩
      rcases List.mem_cons.mp hmem with rfl | hmem
      · exact compare_gt_iff_gt.mp hcompare
      · exact habove e' hmem

theorem splits_search (hm : m.Sorted) (o : Oid) : m.Splits o (m.search o) := by
  obtain ⟨hencloses, hsize⟩ := encloses_repeat hm o m.size
  exact hencloses.splits hm (by omega)

end Responder.OidMap
