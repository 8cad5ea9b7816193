import Responder.Proofs.Bulk.Sheet
import Responder.Proofs.Reading

/-! How a search in bulk fills in its rows, where every single search has an answer and nothing is waited for. At
    any time the items hold the answers so far, and what has not been answered of the first row behind them
    (`Holds`). The cursor goes through the first row (`step_first`) and through further ones (`step_further`), and stops
    behind the last one (`step_over`). -/

namespace Responder.Bulk

/-! ### Items -/

/-- The item of a binding that still has to be served. -/
structure Open (context : ContextName) (b : Binding) (x : Item) : Prop where
  binding : x.binding = b
  region : x.region = (Region.after b.oid).inContext (some context)
  fresh : x.complete = false
  clear : x.hasError = false
  rested : x.deferred = false

/-- The item of a binding that is answered. -/
structure Settled (context : ContextName) (b : Binding) (x : Item) : Prop where
  binding : x.binding = b
  context : x.region.context = some context
  closed : x.complete = true
  clear : x.hasError = false

section Items
variable {context : ContextName} {b : Binding} {x : Item}

theorem Settled.repetition_of_marker (h : Settled context b x) (hb : b.value.isException = true) (index : Nat) :
    Settled context b (x.repetition index) := by
  have hvalue : x.value.isException = true := (congrArg (fun b => b.value.isException) h.binding).trans hb
  rw [Item.repetition, if_pos hvalue]
  exact ⟨h.binding, h.context, rfl, rfl⟩

theorem Settled.repetition_of_value (h : Settled context b x) (hb : b.value.isException = false) (index : Nat) :
    Open context (.unset b.oid) (x.repetition index) := by
  have hvalue : x.value.isException = false := (congrArg (fun b => b.value.isException) h.binding).trans hb
  have hoid : x.oid = b.oid := congrArg Binding.oid h.binding
  rw [Item.repetition, hvalue, if_neg Bool.false_ne_true]
  exact ⟨congrArg Binding.unset hoid, by rw [hoid, h.context]; rfl, rfl, rfl, rfl⟩

end Items

/-- Every search has an answer, which serving an item comes to without waiting. -/
def Answers {Obj : Type} [ManagedObject Obj] (p : Policy) (registry : Nat) (who : Requester) (P : State Obj → Prop)
    (answer : Oid → Binding) : Prop :=
  ∀ b x s, Open who.context b x → P s → (Next.search p registry who x).Ensures (fun _ _ => False)
    (fun _ => False) s fun out t => P t ∧ out.2 = none ∧ Settled who.context (answer b.oid) out.1

/-! ### Requests -/

/-- The items of a request hold some answers, and behind them what still has to be answered. -/
structure Holds (pdu : Pdu) (who : Requester) (maxSize : Nat) (bs cs : List Binding) (r : Request) : Prop where
  requester : r.requester = who
  pdu : r.pdu = pdu
  phase : r.phase = .process
  status : r.status = .noError
  maxSize : r.maxSize = maxSize
  items : ∃ done rest, r.items = done ++ rest ∧ List.Forall₂ (Settled who.context) bs done ∧
    List.Forall₂ (Open who.context) cs rest

section Requests
variable {pdu : Pdu} {who : Requester} {maxSize : Nat} {bs cs : List Binding} {b c : Binding} {x : Item} {r : Request}

theorem Holds.size_eq (h : Holds pdu who maxSize bs cs r) : r.size = bs.length + cs.length := by
  obtain ⟨done, rest, hitems, hdone, hrest⟩ := h.items
  rw [Request.size, hitems, List.length_append, hdone.length_eq, hrest.length_eq]

theorem Holds.clear (h : Holds pdu who maxSize bs cs r) : r.hasError = false := by
  obtain ⟨done, rest, hitems, hdone, hrest⟩ := h.items
  rw [Request.hasError, h.status, hitems, Bool.or_eq_false_iff]
  refine ⟨rfl, List.any_eq_false.mpr fun x hx => Bool.not_eq_true _ ▸ ?_⟩
  rcases List.mem_append.mp hx with hx | hx
  · obtain ⟨b, hb⟩ := exists_of_mem hdone hx
    exact hb.clear
  · obtain ⟨c, hc⟩ := exists_of_mem hrest hx
    exact hc.clear

theorem Holds.bindings (h : Holds pdu who maxSize bs cs r) : r.items.map Item.binding = bs ++ cs := by
  obtain ⟨done, rest, hitems, hdone, hrest⟩ := h.items
  have hbs : bs = done.map Item.binding :=
    List.forall₂_eq_eq_eq ▸ List.forall₂_map_right_iff.mpr (hdone.imp fun b x hx => hx.binding.symm)
  have hcs : cs = rest.map Item.binding :=
    List.forall₂_eq_eq_eq ▸ List.forall₂_map_right_iff.mpr (hrest.imp fun c x hx => hx.binding.symm)
  rw [hitems, List.map_append, hbs, hcs]

theorem Holds.responseSize (h : Holds pdu who maxSize bs cs r) : r.responseSize = (pdu.answer (bs ++ cs)).size := by
  rw [responseSize_of_clear h.clear, h.bindings, h.pdu]

theorem Holds.settled (h : Holds pdu who maxSize bs cs r) {i : Nat} (hb : bs[i]? = some b) :
    ∃ x, r.items[i]? = some x ∧ Settled who.context b x := by
  obtain ⟨done, rest, hitems, hdone, -⟩ := h.items
  obtain ⟨hi, rfl⟩ := List.getElem?_eq_some_iff.mp hb
  have hi' : i < done.length := hdone.length_eq ▸ hi
  refine ⟨done[i], ?_, (List.forall₂_iff_get.mp hdone).2 i hi hi'⟩
  rw [hitems, List.getElem?_append_left hi', List.getElem?_eq_getElem hi']

theorem Holds.next (h : Holds pdu who maxSize bs (c :: cs) r) :
    ∃ x, r.items[bs.length]? = some x ∧ Open who.context c x := by
  obtain ⟨done, rest, hitems, hdone, hrest⟩ := h.items
  cases hrest with
  | @cons _ x _ rest hx hrest =>
    refine ⟨x, ?_, hx⟩
    rw [hitems, hdone.length_eq, List.getElem?_append_right le_rfl, Nat.sub_self, List.getElem?_cons_zero]

theorem Holds.set (h : Holds pdu who maxSize bs (c :: cs) r) (hx : Settled who.context b x) :
    Holds pdu who maxSize (bs ++ [b]) cs (r.setItem bs.length x) := by
  obtain ⟨done, rest, hitems, hdone, hrest⟩ := h.items
  cases hrest with
  | @cons _ y _ rest hy hrest =>
    refine ⟨h.requester, h.pdu, h.phase, h.status, h.maxSize, done ++ [x], rest, ?_, ?_, hrest⟩
    · show r.items.set bs.length x = _
      rw [hitems, hdone.length_eq, List.set_append_right _ _ le_rfl, Nat.sub_self, List.set_cons_zero]
      exact List.append_cons done x rest
    · exact List.rel_append hdone (.cons hx .nil)

theorem Holds.append_settled (h : Holds pdu who maxSize bs [] r) (hx : Settled who.context b x) :
    Holds pdu who maxSize (bs ++ [b]) [] { r with items := r.items ++ [x] } := by
  obtain ⟨done, rest, hitems, hdone, hrest⟩ := h.items
  cases hrest
  refine ⟨h.requester, h.pdu, h.phase, h.status, h.maxSize, done ++ [x], [], ?_, ?_, .nil⟩
  · rw [hitems, List.append_nil, List.append_nil]
  · exact List.rel_append hdone (.cons hx .nil)

theorem Holds.append_open (h : Holds pdu who maxSize bs [] r) (hx : Open who.context c x) :
    Holds pdu who maxSize bs [c] { r with items := r.items ++ [x] } := by
  obtain ⟨done, rest, hitems, hdone, hrest⟩ := h.items
  cases hrest
  refine ⟨h.requester, h.pdu, h.phase, h.status, h.maxSize, done, [x], ?_, hdone, .cons hx .nil⟩
  rw [hitems, List.append_nil]

theorem Holds.truncate (h : Holds pdu who maxSize bs cs r) {count : Nat} (hcount : count ≤ bs.length) :
    Holds pdu who maxSize (bs.take count) [] (r.truncate count) := by
  obtain ⟨done, rest, hitems, hdone, -⟩ := h.items
  refine ⟨h.requester, h.pdu, h.phase, h.status, h.maxSize, done.take count, [], ?_,
    List.forall₂_take count hdone, .nil⟩
  show r.items.take count = _
  rw [hitems, List.append_nil, List.take_append_of_le_length (hdone.length_eq ▸ hcount)]

/-- A request whose items are all answered is complete with its repetition. -/
theorem Holds.isComplete (h : Holds pdu who maxSize bs [] r) (hkind : pdu.kind = .getBulk) :
    (finish r).isComplete = true := by
  obtain ⟨done, rest, hitems, hdone, hrest⟩ := h.items
  cases hrest
  have hall : r.items.all Item.complete = true := by
    rw [hitems, List.append_nil, List.all_eq_true]
    intro x hx
    obtain ⟨b, hb⟩ := exists_of_mem hdone hx
    exact hb.closed
  simp [finish, Request.isComplete, Request.isTwoPhase, Request.isPhaseComplete, h.phase, h.pdu, hkind, hall]

end Requests

/-! ### The cursor -/

section Cursor
variable {T : Sheet} {who : Requester} {maxSize k j : Nat} {bs cs : List Binding} {r : Request} {x : Item}

theorem Holds.shape (h : Holds T.pdu who maxSize bs cs r) (hkind : T.pdu.kind = .getBulk) :
    r.shape? = some T.shape := by
  rw [Request.shape?, h.pdu, Request.shapeOf?, if_pos hkind]
  rfl

theorem column_place (hj : j < T.shape.columns) : (T.place k j - T.shape.single) % T.shape.columns = j := by
  rw [Sheet.place, Nat.add_assoc, Nat.add_sub_cancel_left, Nat.add_comm, Nat.add_mul_mod_self_right,
    Nat.mod_eq_of_lt hj]

theorem isRowStart_place (hj : j < T.shape.columns) :
    Repetition.isRowStart T.shape (T.place k j) = true ↔ 0 < k ∧ j = 0 := by
  rw [Repetition.isRowStart, Bool.and_eq_true, column_place hj, decide_eq_true_iff, beq_iff_eq]
  refine and_congr_left fun hzero => ?_
  rw [Sheet.place, hzero, Nat.add_zero, Nat.lt_add_right_iff_pos, Nat.mul_pos_iff_of_pos_right (by omega)]

theorem dropRow_place (hkind : T.pdu.kind = .getBulk) (hr : Holds T.pdu who maxSize bs cs r)
    (hj : j < T.shape.columns) : (Repetition.dropRow r (T.place k j)).2 = r.truncate (T.place k 0) := by
  have hinside : ¬(T.shape.columns = 0 ∨ T.place k j < T.shape.single) := by
    rw [Sheet.place]
    omega
  have hrow : (T.place k j - T.shape.single) / T.shape.columns = k := by
    rw [Sheet.place, Nat.add_assoc, Nat.add_sub_cancel_left, Nat.add_comm, Nat.add_mul_div_right _ _ (by omega),
      Nat.div_eq_of_lt hj, Nat.zero_add]
  simp only [Repetition.dropRow, hr.shape hkind, hinside, if_false, hrow]
  rfl

theorem Holds.truncate_place (hr : Holds T.pdu who maxSize (T.filled k j) cs r) (hj : j ≤ T.shape.columns) :
    Holds T.pdu who maxSize (T.rows k) [] (r.truncate (T.place k 0)) := by
  rw [← T.take_filled k j]
  refine hr.truncate ?_
  rw [T.length_filled hj, Sheet.place, Sheet.place]
  omega

theorem Holds.dropRow (hr : Holds T.pdu who maxSize (T.filled k (j + 1)) cs r) (hkind : T.pdu.kind = .getBulk)
    (hj : j < T.shape.columns) :
    Holds T.pdu who maxSize (T.rows k) [] (Repetition.dropRow r (T.place k j)).2 := by
  rw [dropRow_place hkind hr hj]
  exact hr.truncate_place hj

theorem truncate_self (r : Request) : r.truncate r.size = r :=
  congrArg (fun items => { r with items }) List.take_length

theorem place_lt_capacity (hk : k < T.shape.repetitions) (hj : j < T.shape.columns) :
    T.place k j < T.shape.capacity := by
  have hrow : (k + 1) * T.shape.columns ≤ T.shape.repetitions * T.shape.columns := Nat.mul_le_mul_right _ hk
  rw [Nat.succ_mul] at hrow
  rw [Sheet.place, BulkShape.capacity]
  omega

theorem step_bare (hkind : T.pdu.kind = .getBulk) (hr : Holds T.pdu who maxSize bs cs r)
    (hbare : T.shape.columns = 0 ∨ T.shape.repetitions = 0) (cursor : Nat) :
    Repetition.step cursor r = .over r := by
  have hover : T.shape.columns = 0 ∨ T.shape.repetitions = 0 ∨ T.shape.capacity ≤ cursor := by omega
  simp only [Repetition.step, hr.shape hkind, hover, if_true]

/-- In the first row there is an item already. -/
theorem step_first (hkind : T.pdu.kind = .getBulk) (hr : Holds T.pdu who maxSize (T.filled 0 j) (T.pending 0 j) r)
    (hj : j < T.shape.columns) (hrepeats : 0 < T.shape.repetitions) :
    Repetition.step (T.place 0 j) r = .item (T.place 0 j) r := by
  have hcapacity := place_lt_capacity hrepeats hj
  have hmore : ¬(T.shape.columns = 0 ∨ T.shape.repetitions = 0 ∨ T.shape.capacity ≤ T.place 0 j) := by omega
  have hstart : ¬Repetition.isRowStart T.shape (T.place 0 j) = true := by
    rw [isRowStart_place hj]
    omega
  have hinside : ¬r.size ≤ T.place 0 j := by
    rw [hr.size_eq, T.length_filled hj.le, T.length_pending]
    omega
  simp only [Repetition.step, hr.shape hkind, hmore, hstart, hinside, Bool.false_eq_true, false_and, if_false]

theorem rowBefore_all (hr : Holds T.pdu who maxSize (T.rows (k + 1)) [] r) :
    ((Repetition.rowBefore T.shape (T.place (k + 1) 0) r).all fun i => i.value.isEndOfView) = T.isLast k := by
  have hplace : T.place (k + 1) 0 - T.shape.columns = (T.rows k).length := by
    rw [← T.place_columns, Sheet.place, Nat.add_sub_cancel, T.length_rows]
  have hrow : ((Repetition.rowBefore T.shape (T.place (k + 1) 0) r).map Item.binding) = T.row k := by
    rw [Repetition.rowBefore, List.map_take, List.map_drop, hr.bindings, hplace, List.append_nil, T.rows_succ,
      List.drop_left, ← T.length_row k, List.take_length]
  rw [Sheet.isLast, ← hrow, List.all_map]
  rfl

/-- After the last row there is nothing more to repeat. -/
theorem step_over (hkind : T.pdu.kind = .getBulk) (hr : Holds T.pdu who maxSize (T.rows (k + 1)) [] r)
    (hcolumns : 0 < T.shape.columns) (hk : k < T.height) (hlast : ¬k + 1 < T.height) :
    Repetition.step (T.place (k + 1) 0) r = .over r := by
  have hsize : r.size = T.place (k + 1) 0 := by
    rw [hr.size_eq, T.length_rows]
    rfl
  by_cases hover : T.shape.columns = 0 ∨ T.shape.repetitions = 0 ∨ T.shape.capacity ≤ T.place (k + 1) 0
  · simp only [Repetition.step, hr.shape hkind, hover, if_true]
  · have hstart : Repetition.isRowStart T.shape (T.place (k + 1) 0) = true := (isRowStart_place hcolumns).mpr (by omega)
    have hmore : k + 1 < T.shape.repetitions := by
      refine Nat.lt_of_not_le fun hle => hover (Or.inr (Or.inr ?_))
      rw [BulkShape.capacity, Sheet.place, Nat.add_zero]
      exact Nat.add_le_add_left (Nat.mul_le_mul_right _ hle) _
    have hends : T.isLast k = true := by
      rw [Sheet.lt_height_iff] at hk hlast
      by_contra hends
      refine hlast ⟨hmore, fun i hi => ?_⟩
      rcases Nat.lt_or_eq_of_le (Nat.le_of_lt_succ hi) with hi | rfl
      · exact hk.2 i hi
      · exact Bool.not_eq_true _ ▸ hends
    have hwhole : r.truncate (T.place (k + 1) 0) = r := hsize ▸ truncate_self r
    simp only [Repetition.step, hr.shape hkind, hover, if_false, hstart, hsize, lt_irrefl, and_false, rowBefore_all hr,
      hends, and_self, if_true, hwhole]

/-- A further row begins, or goes on, with what stands in the same column of the row before. -/
theorem step_further (hkind : T.pdu.kind = .getBulk) (hr : Holds T.pdu who maxSize (T.filled (k + 1) j) [] r)
    (hj : j < T.shape.columns) (hk : k + 1 < T.height) (hx : r.items[T.place k j]? = some x) :
    Repetition.step (T.place (k + 1) j) r =
      if maxSize ≤ T.size (T.filled (k + 1) j) then .over (r.truncate (T.place (k + 1) 0))
      else .item (T.place (k + 1) j) { r with items := r.items ++ [x.repetition (T.place (k + 1) j)] } := by
  obtain ⟨hrepeats, hnone⟩ := Sheet.lt_height_iff.mp hk
  have hcapacity := place_lt_capacity hrepeats hj
  have hmore : ¬(T.shape.columns = 0 ∨ T.shape.repetitions = 0 ∨ T.shape.capacity ≤ T.place (k + 1) j) := by omega
  have hsize : r.size = T.place (k + 1) j := by
    rw [hr.size_eq, T.length_filled hj.le]
    rfl
  have hgoes : ¬(Repetition.isRowStart T.shape (T.place (k + 1) j) = true ∧
      ((Repetition.rowBefore T.shape (T.place (k + 1) j) r).all fun i => i.value.isEndOfView) = true) := by
    rintro ⟨hstart, hall⟩
    obtain ⟨-, rfl⟩ := (isRowStart_place hj).mp hstart
    rw [T.filled_zero] at hr
    rw [rowBefore_all hr] at hall
    cases (hnone k (Nat.lt_succ_self k)).symm.trans hall
  have habove : T.place (k + 1) j - T.shape.columns = T.place k j := by
    rw [Sheet.place, Sheet.place, Nat.succ_mul]
    omega
  have hbelow : ¬T.place (k + 1) j < T.shape.columns := by
    rw [Sheet.place, Nat.succ_mul]
    omega
  have hfull : r.responseSize = T.size (T.filled (k + 1) j) := by
    rw [hr.responseSize, List.append_nil]
    rfl
  simp only [Repetition.step, hr.shape hkind, hmore, hsize, lt_irrefl, and_false, hgoes, le_refl, if_true, if_false,
    Repetition.append, hr.maxSize, hfull, column_place hj, dropRow_place hkind hr hj, hbelow, habove, hx]
  refine if_congr Iff.rfl ?_ rfl
  split
  · rfl
  · next hzero =>
    rw [ne_eq, not_not] at hzero
    rw [← hzero, ← hsize, truncate_self]

end Cursor
end Responder.Bulk
