import Mathlib.Data.Nat.Find
import Mathlib.Order.Bounds.Basic
import Responder.Proofs.Bulk.Iteration

/-! What a limit on the size leaves of the answer to a search in bulk: as many whole rows as fit, with two exceptions
    (`rows_of_admits`). The first row is lost where some of its answers do not fit among what the request itself holds
    in the other columns (`Sheet.breaks`). And of the row after those that fit all but the last column is left where
    that column is taken over from a marker and the others fit (`Sheet.slips`). -/

namespace Responder.Bulk

open Next (Survey)

namespace Sheet
variable (T : Sheet)

/-- Some answers of the first row, with what is asked for in the other columns, are too large. -/
def breaks (maxSize : Nat) : Bool :=
  T.shape.repetitions != 0 && (List.range T.shape.columns).any fun j => maxSize < T.size (T.shown 0 (j + 1))

/-- After so many rows there is room for all but the last column of the next one, which is taken over. -/
def slips (maxSize : Nat) : Nat → Bool
  | 0 => false
  | k + 1 => k + 1 < T.height && T.endsInMarker k && T.size (T.rows (k + 1) ++ (T.row (k + 1)).dropLast) < maxSize

/-- What is left when so many rows fit. -/
def kept (maxSize k : Nat) : List Binding :=
  if T.breaks maxSize then T.head
  else if T.slips maxSize k then T.rows k ++ (T.row k).dropLast
  else T.rows k

variable {T} {maxSize k K : Nat} {bs : List Binding}

theorem dropLast_row (k : Nat) : T.rows k ++ (T.row k).dropLast = T.filled k (T.shape.columns - 1) := by
  rw [List.dropLast_eq_take, length_row, filled]

theorem breaks_iff : T.breaks maxSize = true ↔
    0 < T.shape.repetitions ∧ ∃ j < T.shape.columns, maxSize < T.size (T.shown 0 (j + 1)) := by
  simp [breaks, Nat.pos_iff_ne_zero]

theorem slips_succ_iff : T.slips maxSize (k + 1) = true ↔ k + 1 < T.height ∧ T.endsInMarker k = true ∧
    T.size (T.filled (k + 1) (T.shape.columns - 1)) < maxSize := by
  simp [slips, dropLast_row, and_assoc]

/-- So many rows are the most that fit, if they do and one more does not, or there is none. -/
theorem eq_of_isGreatest (hK : IsGreatest {k | k ≤ T.height ∧ T.size (T.rows k) ≤ maxSize} K) (hk : k ≤ T.height)
    (hfits : T.size (T.rows k) ≤ maxSize) (hfull : k = T.height ∨ maxSize < T.size (T.rows (k + 1))) : K = k := by
  obtain ⟨⟨hK, hfitsK⟩, hgreatest⟩ := hK
  refine le_antisymm ?_ (hgreatest ⟨hk, hfits⟩)
  by_contra hlt
  rcases hfull with rfl | hlarge
  · exact hlt hK
  · have hle : T.size (T.rows (k + 1)) ≤ T.size (T.rows K) := T.size_rows_le (by omega)
    omega

theorem kept_of_bare (h : T.shape.columns = 0 ∨ T.shape.repetitions = 0) (hK : K ≤ T.height) :
    T.kept maxSize K = T.head := by
  have hrows : T.rows K = T.head ∧ (T.slips maxSize K = true → T.row K = []) := by
    rcases h with hcolumns | hrepeats
    · exact ⟨T.rows_of_bare hcolumns K, fun _ => List.length_eq_zero_iff.mp ((T.length_row K).trans hcolumns)⟩
    · obtain rfl : K = 0 := Nat.le_zero.mp (hK.trans (hrepeats ▸ T.height_le))
      exact ⟨T.rows_zero, fun hslips => (Bool.false_ne_true hslips).elim⟩
  unfold kept
  split
  · rfl
  · split
    · next hslips => rw [hrows.2 hslips, hrows.1, List.dropLast_nil, List.append_nil]
    · exact hrows.1

theorem size_last_lt (hcolumns : 0 < T.shape.columns) :
    T.size (T.filled k (T.shape.columns - 1)) < T.size (T.rows (k + 1)) := by
  rw [← filled_columns]
  exact size_filled_lt (Nat.sub_one_lt_of_lt hcolumns) le_rfl

end Sheet

variable {T : Sheet} {maxSize k K : Nat} {bs : List Binding}

/-- Whole rows that are left, and fit, are all that fit. -/
theorem Stops.eq_of_fits (h : Stops T maxSize k) (hcolumns : 0 < T.shape.columns)
    (hfits : T.size (T.rows (k + 1)) ≤ maxSize)
    (hK : IsGreatest {k | k ≤ T.height ∧ T.size (T.rows k) ≤ maxSize} K) :
    K = k + 1 ∧ T.slips maxSize (k + 1) = false := by
  have hlast := T.size_last_lt (k := k + 1) hcolumns
  rcases h.full with hheight | ⟨hmore, hroom | ⟨hvalue, hlarge⟩⟩
  · refine ⟨T.eq_of_isGreatest hK h.inside hfits (Or.inl hheight), Bool.not_eq_true _ ▸ fun hslips => ?_⟩
    exact absurd (T.slips_succ_iff.mp hslips).1 hheight.not_lt
  · refine ⟨T.eq_of_isGreatest hK h.inside hfits (Or.inr (by omega)), Bool.not_eq_true _ ▸ fun hslips => ?_⟩
    exact absurd (T.slips_succ_iff.mp hslips).2.2 (Nat.not_lt_of_le hroom)
  · refine ⟨T.eq_of_isGreatest hK h.inside hfits (Or.inr hlarge), Bool.not_eq_true _ ▸ fun hslips => ?_⟩
    cases hvalue.symm.trans (T.slips_succ_iff.mp hslips).2.1

/-- If not all of what is left fits, all but its last column does. -/
theorem Stops.eq_of_large (h : Stops T maxSize k)
    (hlarge : maxSize < T.size (T.rows (k + 1)))
    (hK : IsGreatest {k | k ≤ T.height ∧ T.size (T.rows k) ≤ maxSize} K) :
    K = k ∧ T.slips maxSize k = true := by
  rcases h.tight with hfits | ⟨i, rfl, hmarker, hroom⟩
  · omega
  · have hrows : T.size (T.rows (i + 1)) ≤ T.size (T.filled (i + 1) (T.shape.columns - 1)) := by
      rw [← T.filled_zero]
      exact T.size_filled_le (Nat.zero_le _)
    exact ⟨T.eq_of_isGreatest hK h.inside.le (by omega) (Or.inr hlarge),
      T.slips_succ_iff.mpr ⟨h.inside, hmarker, hroom⟩⟩

theorem Fits.not_breaks (h : Fits T maxSize k) : T.breaks maxSize = false := by
  refine Bool.not_eq_true _ ▸ fun hbreaks => ?_
  obtain ⟨-, j, hj, hlarge⟩ := T.breaks_iff.mp hbreaks
  exact absurd (h.first (j + 1) hj (Nat.succ_pos j)) (Nat.not_le_of_lt hlarge)

/-- What is left goes out as far as it fits. -/
theorem Leaves.fit? (h : Leaves T maxSize bs) (hhead : T.size T.head ≤ maxSize)
    (hK : IsGreatest {k | k ≤ T.height ∧ T.size (T.rows k) ≤ maxSize} K) :
    Reply.fit? (T.pdu.answer bs) true maxSize = some (T.pdu.answer (T.kept maxSize K)) := by
  cases h with
  | bare hbare =>
    rw [T.kept_of_bare hbare hK.1.1]
    exact if_pos hhead
  | @broken j hrepeats hj hlarge =>
    rw [Sheet.kept, if_pos (T.breaks_iff.mpr ⟨hrepeats, j, hj, hlarge⟩)]
    exact if_pos hhead
  | @rows k hcolumns hstops =>
    rw [Sheet.kept, hstops.not_breaks, if_neg Bool.false_ne_true]
    rcases Nat.lt_or_ge maxSize (T.size (T.rows (k + 1))) with hlarge | hfits
    · obtain ⟨rfl, hslips⟩ := hstops.eq_of_large hlarge hK
      obtain ⟨i, rfl⟩ : ∃ i, K = i + 1 := by
        cases K with
        | zero => cases hslips
        | succ i => exact ⟨i, rfl⟩
      obtain ⟨-, -, hroom⟩ := T.slips_succ_iff.mp hslips
      obtain ⟨b, hb⟩ := T.exists_getElem?_row (i + 1) (Nat.sub_one_lt_of_lt hcolumns)
      have hlast := T.filled_succ hb
      rw [Nat.sub_add_cancel hcolumns, T.filled_columns] at hlast
      rw [if_pos hslips, T.dropLast_row, hlast]
      exact Reply.fit?_of_cut hroom.le (hlast ▸ hlarge)
    · obtain ⟨rfl, hslips⟩ := hstops.eq_of_fits hcolumns hfits hK
      rw [hslips, if_neg Bool.false_ne_true]
      exact if_pos hfits

theorem exists_isGreatest (hhead : T.size T.head ≤ maxSize) :
    ∃ K, IsGreatest {k | k ≤ T.height ∧ T.size (T.rows k) ≤ maxSize} K := by
  refine ⟨Nat.findGreatest (fun k => T.size (T.rows k) ≤ maxSize) T.height, ⟨Nat.findGreatest_le _, ?_⟩, ?_⟩
  · refine Nat.findGreatest_spec (P := fun k => T.size (T.rows k) ≤ maxSize) (Nat.zero_le _) ?_
    rwa [T.rows_zero]
  · rintro k ⟨hk, hfits⟩
    exact Nat.le_findGreatest hk hfits

/-- Searching in bulk, as an agent answers it under a limit on the size that the answers to what is asked for once
keep: with as many whole rows as fit, unless the first row breaks or the row behind them slips through. -/
theorem rows_of_admits {Obj : Type} [ManagedObject Obj] [Store.Among Obj] {a : Agent Obj} {s : State Obj}
    {registry : Nat} {stores : ObjectId → Store} {m₀ m : Inbound} {who : Requester}
    (h : Searchable a s registry stores) (hadmits : a.Admits s m₀ m who registry) (hkind : m.pdu.kind = .getBulk)
    (hversion : m.version ≠ .v1) : ∃ T : Sheet, T.pdu = m.pdu ∧
    (∀ o, (Survey.ofStores registry who.context s stores).Discloses (a.policy.allows who) o (T.answer o)) ∧
    (T.size T.head ≤ m.maxSize → ∃ K, IsGreatest {k | k ≤ T.height ∧ T.size (T.rows k) ≤ m.maxSize} K ∧
      ∃ t, a.process m₀ s = .done (.ok ()) t ∧
        t.sent = s.sent ++ [Outbound.replyTo m (m.pdu.answer
          (if T.breaks m.maxSize then T.head
            else if T.slips m.maxSize K then T.rows K ++ (T.row K).dropLast
            else T.rows K))]) := by
  obtain ⟨answer, hanswer⟩ := h.exists_answer who
  refine ⟨⟨m.pdu, answer⟩, rfl, hanswer, fun hhead => ?_⟩
  obtain ⟨K, hK⟩ := exists_isGreatest hhead
  obtain ⟨bs, hleaves, hprocess⟩ := h.process_bulk hadmits hkind hversion hanswer
  exact ⟨K, hK, hprocess _ (hleaves.fit? hhead hK)⟩

/-- A table with three variables. -/
def shelfStore : Store := .table ⟨⟨[1, 3, 1]⟩, .readOnly,
  ⟨[(⟨[1, 3, 1, 1]⟩, .integer 1), (⟨[1, 3, 1, 2]⟩, .integer 2), (⟨[1, 3, 1, 3]⟩, .integer 3)]⟩⟩

def shelf : State Instrument := { Next.cabinet with objects _ := Store.Among.put shelfStore }

/-- Two columns, the first of which goes through the table, and the second one has come to the end of the view. -/
def leafing (maxSize : Nat) : Inbound :=
  { Inbound.ofCommunity .v2c [] Next.browser.peer (.askingBulk 1 0 3 [⟨[1, 3, 1]⟩, ⟨[1, 3, 2]⟩]) with maxSize }

theorem shelf_sorted : OidMap.Sorted (⟨[(⟨[1, 3, 1, 1]⟩, .integer 1), (⟨[1, 3, 1, 2]⟩, .integer 2),
    (⟨[1, 3, 1, 3]⟩, .integer 3)]⟩ : OidMap Value) := by
  rw [OidMap.Sorted, List.pairwise_cons]
  refine ⟨by decide, List.pairwise_pair.mpr ?_⟩
  decide

theorem shelf_value? {o : Oid} {v : Value} : shelfStore.value? o = some v ↔ ⟨o, v⟩ ∈
    [(⟨⟨[1, 3, 1, 1]⟩, .integer 1⟩ : Binding), ⟨⟨[1, 3, 1, 2]⟩, .integer 2⟩, ⟨⟨[1, 3, 1, 3]⟩, .integer 3⟩] := by
  refine (OidMap.get?_eq_some_iff shelf_sorted).trans ?_
  simp

theorem shelf_searchable : Searchable Agent.plain shelf 0 fun _ => shelfStore where
  next := rfl
  bulk := rfl
  outlet := rfl
  reachable := Next.cabinet_reachable
  locks hreads := absurd Locking.sparesReads_writes hreads
  formed e _ := by
    refine ⟨rfl, shelf_sorted, fun o v h => ?_⟩
    have hmem := shelf_value?.mp h
    simp only [List.mem_cons, List.not_mem_nil, or_false, Binding.mk.injEq] at hmem
    rcases hmem with ⟨rfl, -⟩ | ⟨rfl, -⟩ | ⟨rfl, -⟩ <;> decide

theorem sees_shelf (y : Binding) : (Survey.ofStores 0 [] shelf fun _ => shelfStore).Sees y ↔ y ∈
    [⟨⟨[1, 3, 1, 1]⟩, .integer 1⟩, ⟨⟨[1, 3, 1, 2]⟩, .integer 2⟩, ⟨⟨[1, 3, 1, 3]⟩, .integer 3⟩] := by
  refine ⟨?_, fun hy => ⟨⟨.subtree ⟨[1, 3, 1]⟩, ⟨0⟩⟩, List.mem_singleton.mpr rfl, rfl, shelf_value?.mpr hy⟩⟩
  rintro ⟨e, -, -, hvalue⟩
  exact shelf_value?.mp hvalue

/-- The whole answer, of which the limits below keep a part. -/
def leaves : Sheet where
  pdu := .askingBulk 1 0 3 [⟨[1, 3, 1]⟩, ⟨[1, 3, 2]⟩]
  answer := firstPast
    [⟨⟨[1, 3, 1, 1]⟩, .integer 1⟩, ⟨⟨[1, 3, 1, 2]⟩, .integer 2⟩, ⟨⟨[1, 3, 1, 3]⟩, .integer 3⟩]

theorem eq_leaves {o : Oid} {x : Binding}
    (hx : (Survey.ofStores 0 [] shelf fun _ => shelfStore).Discloses (fun _ => true) o x) : x = leaves.answer o := by
  refine shelf_searchable.eq_firstPast [] Locking.sparesReads_writes sees_shelf ?_ hx
  rw [List.pairwise_cons]
  exact ⟨by decide, List.pairwise_pair.mpr (by decide)⟩

/-- Two of three rows fit. -/
theorem rows_of_leafing : ∃ t, Agent.plain.process (leafing 58) shelf = .done (.ok ()) t ∧
    t.sent = [Outbound.replyTo (leafing 58) ⟨.response, 1, 0, 0, [⟨⟨[1, 3, 1, 1]⟩, .integer 1⟩,
      ⟨⟨[1, 3, 2]⟩, .endOfMibView⟩, ⟨⟨[1, 3, 1, 2]⟩, .integer 2⟩, ⟨⟨[1, 3, 2]⟩, .endOfMibView⟩]⟩] := by
  have hadmits : Agent.plain.Admits shelf (leafing 58) (leafing 58) { Next.browser with kind := .getBulk } 0 :=
    ⟨⟨none, rfl, rfl⟩, rfl, rfl⟩
  obtain ⟨⟨pdu, answer⟩, rfl, hanswer, hprocess⟩ := rows_of_admits shelf_searchable hadmits rfl (by decide)
  obtain rfl : answer = leaves.answer := funext fun o => eq_leaves (hanswer o)
  obtain ⟨K, hK, hprocess⟩ := hprocess (by decide +kernel)
  obtain rfl : K = 2 := Sheet.eq_of_isGreatest hK (by decide +kernel) (by decide +kernel) (Or.inr (by decide +kernel))
  exact hprocess

/-- One row fits, and no second one, but its first column is sent all the same. -/
theorem not_whole_of_leafing :
    (∀ o, (Survey.ofStores 0 [] shelf fun _ => shelfStore).Discloses (fun _ => true) o (leaves.answer o)) ∧
    IsGreatest {k | k ≤ leaves.height ∧ leaves.size (leaves.rows k) ≤ 42} 1 ∧
    ∃ t, Agent.plain.process (leafing 42) shelf = .done (.ok ()) t ∧
      t.sent = [Outbound.replyTo (leafing 42) (leaves.pdu.answer (leaves.rows 1 ++ [⟨⟨[1, 3, 1, 2]⟩, .integer 2⟩]))] ∧
      t.sent ≠ [Outbound.replyTo (leafing 42) (leaves.pdu.answer (leaves.rows 1))] := by
  refine ⟨fun o => ?_, ⟨⟨by decide +kernel, by decide +kernel⟩, ?_⟩, ⟨_, rfl, ?_, ?_⟩⟩
  · obtain ⟨answer, hanswer⟩ := shelf_searchable.exists_answer Next.browser
    exact eq_leaves (hanswer o) ▸ hanswer o
  · rintro k ⟨-, hfits⟩
    by_contra hlt
    have hsecond : leaves.size (leaves.rows 2) ≤ 42 := (Sheet.size_rows_le (by omega)).trans hfits
    revert hsecond
    decide +kernel
  · decide +kernel
  · decide +kernel

end Responder.Bulk
