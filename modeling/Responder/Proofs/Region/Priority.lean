import Mathlib.Data.List.Induction
import Responder.Proofs.Region.Order
import Responder.Region.Priority

/-! Priorities and the order that they give. The roots above an identifier stand in a sorted map one behind the other
    as they grow longer, so the first that is met on the way back from the identifier is the longest one
    (`rank?_eq_some_iff`). Regions are compared by what they have for a priority, none being last, and then as
    `Region.order` does, so their order is strict and total, and sorting by it has one result
    (`priority_order_is_total`). -/

namespace Responder

namespace Oid

/-- Of the roots above one identifier the longer is the greater. -/
theorem le_iff_size_le {o a b : Oid} (ha : o.isUnder a = true) (hb : o.isUnder b = true) : a ≤ b ↔ a.size ≤ b.size := by
  rw [isUnder_iff] at ha hb
  have hle {a b : Oid} (h : a.arcs <+: b.arcs) : a ≤ b := (isUnder_iff_between.mp (isUnder_iff.mpr h)).1
  constructor
  · intro hab
    by_contra hlonger
    have hba := List.prefix_of_prefix_length_le hb ha (le_of_not_ge hlonger)
    exact hlonger (le_antisymm hab (hle hba) ▸ le_rfl)
  · intro hsize
    exact hle (List.prefix_of_prefix_length_le ha hb hsize)

end Oid

namespace Priorities

variable {p : Priorities} {ranks : List (Oid × Int32)} {root o : Oid} {rank : Int32} {a b : Region}

/-! ### The priority of an identifier -/

theorem ofList_append (ranks : List (Oid × Int32)) (entry : Oid × Int32) :
    ofList (ranks ++ [entry]) = (ofList ranks).assign entry.1 entry.2 := by
  rw [ofList, List.foldl_append]
  rfl

theorem sorted_ofList (ranks : List (Oid × Int32)) : (ofList ranks).ranks.Sorted := by
  induction ranks using List.reverseRecOn with
  | nil => exact OidMap.sorted_empty
  | append_singleton ranks entry ih =>
    rw [ofList_append]
    exact ih.insert entry.1 entry.2

theorem get?_ofList (ranks : List (Oid × Int32)) (root : Oid) :
    (ofList ranks).ranks.get? root = ranks.reverse.lookup root := by
  induction ranks using List.reverseRecOn with
  | nil => rfl
  | append_singleton ranks entry ih =>
    rw [ofList_append, assign, OidMap.get?_insert (sorted_ofList ranks), ih, List.reverse_append,
      List.reverse_singleton, List.singleton_append, List.lookup_cons]
    by_cases hroot : root = entry.1
    · simp [hroot]
    · simp [hroot, beq_eq_false_iff_ne.mpr hroot]

theorem mem_ofList : (root, rank) ∈ (ofList ranks).ranks.entries ↔ ranks.reverse.lookup root = some rank := by
  rw [← OidMap.get?_eq_some_iff (sorted_ofList ranks), get?_ofList]

theorem exists_mem_ofList :
    (∃ rank, (root, rank) ∈ (ofList ranks).ranks.entries) ↔ ∃ entry ∈ ranks, entry.1 = root := by
  simp only [mem_ofList]
  rw [← Option.isSome_iff_exists, List.lookup_isSome_iff]
  simp only [List.mem_reverse, beq_iff_eq, eq_comm (a := root)]

/-- On the way back from an identifier the first root above it is the longest one. -/
theorem rank?_eq_some_iff (hp : p.ranks.Sorted) : p.rank? o = some rank ↔
    ∃ root, o.isUnder root = true ∧ (root, rank) ∈ p.ranks.entries ∧
      ∀ entry ∈ p.ranks.entries, o.isUnder entry.1 = true → entry.1.size ≤ root.size := by
  have hback : ((p.ranks.upTo o).reverse).Pairwise fun x y => y.1 < x.1 := by
    rw [OidMap.upTo_eq hp, List.pairwise_reverse]
    exact List.Pairwise.filter _ hp
  have hmem {entry : Oid × Int32} (habove : o.isUnder entry.1 = true) :
      entry ∈ (p.ranks.upTo o).reverse ↔ entry ∈ p.ranks.entries := by
    simp [OidMap.upTo_eq hp, (Oid.isUnder_iff_between.mp habove).1]
  have hfirst {entry : Oid × Int32} := find?_eq_some_iff_least (a := entry) (p := fun e => o.isUnder e.1)
    (fun _ _ => lt_asymm) hback
  simp only [rank?, Option.map_eq_some_iff, hfirst]
  constructor
  · rintro ⟨⟨root, _⟩, ⟨hin, habove, hlast⟩, rfl⟩
    refine ⟨root, habove, (hmem habove).mp hin, fun entry he hunder => ?_⟩
    rw [← Oid.le_iff_size_le hunder habove]
    rcases hlast entry ((hmem hunder).mpr he) hunder with rfl | hlt
    · exact le_rfl
    · exact hlt.le
  · rintro ⟨root, habove, hin, hlongest⟩
    refine ⟨(root, rank), ⟨(hmem habove).mpr hin, habove, fun entry he hunder => ?_⟩, rfl⟩
    have he := (hmem hunder).mp he
    rcases ((Oid.le_iff_size_le hunder habove).mpr (hlongest entry he hunder)).lt_or_eq with hlt | heq
    · exact Or.inr hlt
    · have hrank := (OidMap.get?_eq_some_iff (v := entry.2) hp).mpr he
      rw [heq, (OidMap.get?_eq_some_iff hp).mpr hin] at hrank
      exact Or.inl (Prod.ext heq (Option.some.inj hrank).symm)

/-- A root that is not above the identifier stands between it and the one that is. -/
example : (ofList [(⟨[1]⟩, 5), (⟨[1, 2, 9]⟩, 1)]).rank? ⟨[1, 3]⟩ = some 5 := by decide

theorem rank?_eq_none_iff (hp : p.ranks.Sorted) :
    p.rank? o = none ↔ ∀ entry ∈ p.ranks.entries, o.isUnder entry.1 = false := by
  simp only [rank?, Option.map_eq_none_iff, List.find?_eq_none, List.mem_reverse, OidMap.upTo_eq hp, List.mem_filter,
    decide_eq_true_eq, Bool.not_eq_true, and_imp]
  refine forall₂_congr fun entry _ => ⟨fun h => ?_, fun h _ => h⟩
  rw [← Bool.not_eq_true]
  exact fun hunder => absurd hunder (by simp [h (Oid.isUnder_iff_between.mp hunder).1])

/-! ### The order of regions -/

theorem order_eq : p.order a b =
    (Region.compareLast compare (p.rank? a.lower) (p.rank? b.lower)).then (Region.order a b) := by
  unfold order
  cases p.rank? a.lower <;> cases p.rank? b.lower <;> rfl

instance (p : Priorities) : Std.TransCmp p.order :=
  have : Std.TransCmp fun a b : Region => Region.compareLast compare (p.rank? a.lower) (p.rank? b.lower) :=
    { eq_swap := Std.OrientedCmp.eq_swap, isLE_trans := Std.TransCmp.isLE_trans }
  have hlex : p.order =
      compareLex (fun a b => Region.compareLast compare (p.rank? a.lower) (p.rank? b.lower)) Region.order :=
    funext₂ fun _ _ => order_eq
  hlex ▸ inferInstance

theorem order_of_rank_eq (h : p.rank? a.lower = p.rank? b.lower) : p.order a b = Region.order a b := by
  unfold order
  rw [h]
  cases p.rank? b.lower with
  | none => rfl
  | some rank => simp

instance (p : Priorities) : Std.LawfulEqCmp p.order where
  eq_of_compare {a b} h := by
    rw [order_eq, Ordering.then_eq_eq] at h
    exact Std.LawfulEqCmp.eq_of_compare h.2

/-- Sorting has one result, which is the one that sorting by merging gives. -/
theorem eq_mergeSort_iff (p : Priorities) {regions sorted : List Region} :
    sorted.Perm regions ∧ sorted.Pairwise (fun a b => p.order a b ≠ .gt) ↔
      sorted = regions.mergeSort fun a b => p.order a b != .gt := by
  have hpairwise : (regions.mergeSort fun a b => p.order a b != .gt).Pairwise fun a b => p.order a b ≠ .gt := by
    refine (List.pairwise_mergeSort (fun a b c hab hbc => ?_) (fun a b => ?_) regions).imp fun h => by simpa using h
    · simp only [bne_iff_ne, ← Ordering.isLE_iff_ne_gt] at hab hbc ⊢
      exact Std.TransCmp.isLE_trans hab hbc
    · rw [@Std.OrientedCmp.eq_swap _ p.order _ b a]
      cases p.order a b <;> rfl
  constructor
  · rintro ⟨hperm, hsorted⟩
    refine List.Perm.eq_of_pairwise (fun a b _ _ hab hba => ?_) hsorted hpairwise
      (hperm.trans (List.mergeSort_perm regions _).symm)
    rw [ne_eq, ← Ordering.isLE_iff_ne_gt] at hab hba
    exact Std.LawfulEqCmp.eq_of_compare (Std.OrientedCmp.isLE_antisymm hab hba)
  · rintro rfl
    exact ⟨List.mergeSort_perm regions _, hpairwise⟩

/-- Whatever priorities are given, an identifier has the one that was given last to the longest root above it, and none
if no root is above it. The order of regions is a strict total one, in which only equal regions are equal. Regions with
a priority come before those without, and smaller priorities first; where priorities are equal, or missing on both
sides, regions are ordered as in a registry. So any list of regions can be sorted in one way only. -/
theorem priority_order_is_total (ranks : List (Oid × Int32)) :
    let p := ofList ranks
    (∀ o rank, p.rank? o = some rank ↔ ∃ root : Oid, root.arcs <+: o.arcs ∧ ranks.reverse.lookup root = some rank ∧
      ∀ entry ∈ ranks, entry.1.arcs <+: o.arcs → entry.1.size ≤ root.size) ∧
    (∀ o, p.rank? o = none ↔ ∀ entry ∈ ranks, ¬entry.1.arcs <+: o.arcs) ∧
    (∀ a b, (p.order a b = .eq ↔ a = b) ∧ (p.order a b = .gt ↔ p.order b a = .lt)) ∧
    (∀ a b c, p.order a b = .lt → p.order b c = .lt → p.order a c = .lt) ∧
    (∀ a b rank, p.rank? a.lower = some rank → p.rank? b.lower = none → p.order a b = .lt) ∧
    (∀ a b x y, p.rank? a.lower = some x → p.rank? b.lower = some y → x < y → p.order a b = .lt) ∧
    (∀ a b, p.rank? a.lower = p.rank? b.lower → p.order a b = Region.order a b) ∧
    ∀ regions sorted : List Region, sorted.Perm regions ∧ sorted.Pairwise (fun a b => p.order a b ≠ .gt) ↔
      sorted = regions.mergeSort fun a b => p.order a b != .gt := by
  intro p
  have hp : p.ranks.Sorted := sorted_ofList ranks
  have hroots {P : Oid → Prop} : (∀ entry ∈ p.ranks.entries, P entry.1) ↔ ∀ entry ∈ ranks, P entry.1 := by
    constructor
    · intro h entry he
      obtain ⟨rank, hin⟩ := exists_mem_ofList.mpr ⟨entry, he, rfl⟩
      exact h (entry.1, rank) hin
    · intro h entry he
      obtain ⟨given, hgiven, heq⟩ := exists_mem_ofList.mp ⟨entry.2, he⟩
      exact heq ▸ h given hgiven
  refine ⟨fun o rank => ?_, fun o => ?_, fun a b => ⟨Std.LawfulEqCmp.compare_eq_iff_eq, Std.OrientedCmp.gt_iff_lt⟩,
    fun a b c => Std.TransCmp.lt_trans, fun a b rank ha hb => by simp only [order, ha, hb], fun a b x y ha hb hlt => ?_,
    fun a b => order_of_rank_eq, fun regions sorted => p.eq_mergeSort_iff⟩
  · rw [rank?_eq_some_iff hp]
    refine exists_congr fun root => and_congr Oid.isUnder_iff (and_congr mem_ofList ?_)
    simp only [Oid.isUnder_iff]
    exact hroots (P := fun other => other.arcs <+: o.arcs → other.size ≤ root.size)
  · rw [rank?_eq_none_iff hp]
    simp only [← Bool.not_eq_true, Oid.isUnder_iff]
    exact hroots (P := fun other => ¬other.arcs <+: o.arcs)
  · simp only [order, ha, hb, Std.compare_eq_lt.mpr hlt, Ordering.lt_then]

end Priorities
end Responder
