import Mathlib.Logic.Relation
import Responder.Proofs.Items
import Responder.Proofs.Next.Successor

/-! The cursor of a search in bulk, over any number of passes. Each pass goes from place to place (`Moves`) until it
    ends (`repeatFrom_finishes`). While the items fill their first row, the cursor stands within them, and what it
    appends goes on from the item above, in the same column (`Grounded`). A pass keeps the first row, or drops it
    (`Finishes.rowed_or_rowless`); and only if the request is unfinished and taken up again without its first row does
    the cursor lose its ground (`grounded_of_stands`). -/

namespace Responder.Bulk

open Repetition (step dropRow isRowStart rowBefore)

/-! ### Rows -/

/-- What the cursor may rely on: it and the row before it lie within the items, and an item that it appends goes on
from the one above, in the same column of the row before. -/
structure Grounded (shape : BulkShape) (cursor : Nat) (r : Request) : Prop where
  inside : shape.single ≤ cursor ∧ cursor ≤ r.size
  row : isRowStart shape cursor = true →
    shape.columns ≤ cursor ∧ (rowBefore shape cursor r).length = shape.columns
  held : step cursor r ≠ .adrift
  item : ∀ index r', step cursor r = .item index r' → index = cursor ∧ (cursor < r.size ∧ r' = r ∨
    cursor = r.size ∧ shape.single + shape.columns ≤ cursor ∧ ∃ above, r.items[cursor - shape.columns]? = some above ∧
      r' = { r with items := r.items ++ [above.repetition cursor] } ∧ (above.repetition cursor).oid = above.oid)

/-- A request in bulk that has all of its first row, if it is to have rows at all. -/
structure Rowed (shape : BulkShape) (r : Request) : Prop where
  shaped : r.shape? = some shape
  phase : r.phase = .process
  single : shape.single ≤ r.size
  row : shape.columns = 0 ∨ shape.repetitions = 0 ∨ shape.single + shape.columns ≤ r.size

/-- A request in bulk that is to have rows, and has none. -/
structure Rowless (shape : BulkShape) (r : Request) : Prop where
  shaped : r.shape? = some shape
  columns : shape.columns ≠ 0
  repetitions : shape.repetitions ≠ 0
  bare : r.size = shape.single

section Rows
variable {r r' : Request} {cursor index count : Nat} {shape : BulkShape} {x : Item}

theorem oid_repetition (x : Item) (index : Nat) : (x.repetition index).oid = x.oid := by
  unfold Item.repetition
  dsimp only
  split <;> rfl

theorem le_of_isRowStart (h : isRowStart shape cursor = true) : shape.single + shape.columns ≤ cursor := by
  rw [isRowStart, Bool.and_eq_true, decide_eq_true_iff, beq_iff_eq] at h
  have hle := Nat.le_of_dvd (Nat.sub_pos_of_lt h.1) (Nat.dvd_of_mod_eq_zero h.2)
  omega

theorem size_truncate (r : Request) (count : Nat) : (r.truncate count).size = min count r.size := List.length_take

theorem size_setItem (r : Request) (index : Nat) (x : Item) : (r.setItem index x).size = r.size := List.length_set

theorem Rowed.truncate (h : Rowed shape r) (hcount : shape.single + shape.columns ≤ count) :
    Rowed shape (r.truncate count) := by
  have hsingle := h.single
  have hrow := h.row
  refine ⟨h.shaped, h.phase, ?_, ?_⟩ <;> rw [size_truncate] <;> omega

theorem Rowed.setItem (h : Rowed shape r) (index : Nat) (x : Item) : Rowed shape (r.setItem index x) :=
  ⟨h.shaped, h.phase, (size_setItem r index x).symm ▸ h.single, (size_setItem r index x).symm ▸ h.row⟩

theorem Rowed.append (h : Rowed shape r) (x : Item) : Rowed shape { r with items := r.items ++ [x] } := by
  have hsize : ({ r with items := r.items ++ [x] } : Request).size = r.size + 1 := List.length_append
  have hsingle := h.single
  have hrow := h.row
  refine ⟨h.shaped, h.phase, ?_, ?_⟩ <;> rw [hsize] <;> omega

theorem Rowed.dropRow (h : Rowed shape r) (hindex : shape.single + shape.columns ≤ index) :
    Rowed shape (Repetition.dropRow r index).2 := by
  simp only [Repetition.dropRow, h.shaped]
  split
  · exact h
  · next hinside =>
    rw [not_or] at hinside
    refine h.truncate ?_
    have hrow : 0 < (index - shape.single) / shape.columns := Nat.div_pos (by omega) (by omega)
    have hle := Nat.le_mul_of_pos_left shape.columns hrow
    omega

theorem Rowed.dropRow_first (h : Rowed shape r) (hcolumns : shape.columns ≠ 0) (hrepetitions : shape.repetitions ≠ 0)
    (hstart : shape.single ≤ index) (hindex : index < shape.single + shape.columns) :
    Rowless shape (Repetition.dropRow r index).2 := by
  have hinside : ¬(shape.columns = 0 ∨ index < shape.single) := by omega
  have hrow : (index - shape.single) / shape.columns = 0 := Nat.div_eq_of_lt (by omega)
  simp only [Repetition.dropRow, h.shaped, hinside, if_false, hrow, Nat.zero_mul, Nat.add_zero]
  exact ⟨h.shaped, hcolumns, hrepetitions, (size_truncate r _).trans (Nat.min_eq_left h.single)⟩

/-- Where a step of the cursor leads, as long as it stands within the items. -/
theorem Rowed.step_cases (h : Rowed shape r) (hstart : shape.single ≤ cursor) (hsize : cursor ≤ r.size) :
    (∃ r', step cursor r = .over r' ∧ Rowed shape r') ∨
    (shape.columns ≠ 0 ∧ shape.repetitions ≠ 0) ∧ (cursor < r.size ∧ step cursor r = .item cursor r ∨
      cursor = r.size ∧ shape.single + shape.columns ≤ cursor ∧ ∃ above,
        r.items[cursor - shape.columns]? = some above ∧
          step cursor r = .item cursor { r with items := r.items ++ [above.repetition cursor] }) := by
  by_cases hover : shape.columns = 0 ∨ shape.repetitions = 0 ∨ shape.capacity ≤ cursor
  · refine Or.inl ⟨r, ?_, h⟩
    simp only [step, h.shaped, hover, if_true]
  · have hrow := h.row
    by_cases hends : isRowStart shape cursor = true ∧
        ((rowBefore shape cursor r).all fun i => i.value.isEndOfView) = true
    · refine Or.inl ⟨r.truncate cursor, ?_, h.truncate (le_of_isRowStart hends.1)⟩
      simp only [step, h.shaped, hover, if_false, Nat.not_lt_of_le hsize, and_false, hends, and_self, if_true]
    · -- The first row is there, so behind the last item there is one above.
      rcases Nat.lt_or_eq_of_le hsize with hinside | hend
      · refine Or.inr ⟨by omega, Or.inl ⟨hinside, ?_⟩⟩
        simp only [step, h.shaped, hover, if_false, Nat.not_lt_of_le hsize, and_false, hends, Nat.not_le_of_lt hinside]
      · have hbehind : shape.single + shape.columns ≤ cursor := by omega
        have hstep : step cursor r = Repetition.append shape cursor r := by
          simp only [step, h.shaped, hover, if_false, Nat.not_lt_of_le hsize, and_false, hends,
            Nat.le_of_eq hend.symm, if_true]
        rw [hstep, Repetition.append]
        split
        · refine Or.inl ?_
          split
          · exact ⟨_, rfl, h.dropRow hbehind⟩
          · exact ⟨r, rfl, h⟩
        · have hlt : cursor - shape.columns < r.items.length := by
            rw [show r.items.length = cursor from hend.symm]
            omega
          refine Or.inr ⟨by omega, Or.inr ⟨hend, hbehind, _, List.getElem?_eq_getElem hlt, ?_⟩⟩
          rw [if_neg (by omega), List.getElem?_eq_getElem hlt]

/-- Within the items of a request that has its first row, the cursor is grounded. -/
theorem Rowed.grounded (h : Rowed shape r) (hstart : shape.single ≤ cursor) (hsize : cursor ≤ r.size) :
    Grounded shape cursor r := by
  refine ⟨⟨hstart, hsize⟩, fun hrow => ?_, ?_, ?_⟩
  · have hle := le_of_isRowStart hrow
    refine ⟨by omega, ?_⟩
    rw [rowBefore, List.length_take, List.length_drop, show r.items.length = r.size from rfl]
    omega
  · intro hadrift
    rcases h.step_cases hstart hsize with ⟨r', hstep, -⟩ | ⟨-, ⟨-, hstep⟩ | ⟨-, -, above, -, hstep⟩⟩ <;>
      cases hadrift.symm.trans hstep
  · intro index r' hitem
    rcases h.step_cases hstart hsize with
      ⟨r'', hstep, -⟩ | ⟨-, ⟨hinside, hstep⟩ | ⟨hend, hbehind, above, habove, hstep⟩⟩
    · cases hitem.symm.trans hstep
    · cases hitem.symm.trans hstep
      exact ⟨rfl, Or.inl ⟨hinside, rfl⟩⟩
    · cases hitem.symm.trans hstep
      exact ⟨rfl, Or.inr ⟨hend, hbehind, above, habove, rfl, oid_repetition above cursor⟩⟩

/-- Where there are no rows, the cursor has lost its ground as soon as there is room for an item. -/
theorem Rowless.not_grounded (h : Rowless shape r) (hroom : r.responseSize < r.maxSize) :
    ¬Grounded shape shape.single r := by
  intro hgrounded
  have hcolumns := h.columns
  have hrepetitions := h.repetitions
  have hmore : ¬(shape.columns = 0 ∨ shape.repetitions = 0 ∨ shape.capacity ≤ shape.single) := by
    have hpos := Nat.mul_pos (Nat.pos_of_ne_zero hrepetitions) (Nat.pos_of_ne_zero hcolumns)
    rw [BulkShape.capacity]
    omega
  have hrow : isRowStart shape shape.single = false := by simp [isRowStart]
  have hstep : step shape.single r = Repetition.append shape shape.single r := by
    simp only [step, h.shaped, hmore, hrow, Bool.false_eq_true, false_and, if_false, Nat.le_of_eq h.bare, if_true]
  have hheld := hgrounded.held
  have hitem := hgrounded.item
  rw [hstep, Repetition.append, if_neg (Nat.not_le_of_lt hroom)] at hheld hitem
  split at hitem
  · next hbelow => exact hheld (if_pos hbelow)
  · next hbelow =>
    rw [if_neg hbelow] at hheld
    cases habove : r.items[shape.single - shape.columns]? with
    | none =>
      rw [habove] at hheld
      exact hheld rfl
    | some above =>
      rw [habove] at hitem
      obtain ⟨-, ⟨hinside, -⟩ | ⟨-, hbehind, -⟩⟩ := hitem _ _ rfl
      · exact absurd h.bare (Nat.ne_of_gt hinside)
      · omega

end Rows

/-! ### Places -/

/-- Where the repetition stands. -/
structure Place (Obj : Type) where
  cursor : Nat
  request : Request
  state : State Obj

variable {Obj : Type} [ManagedObject Obj]

/-- From one item to the next: past an item that is complete already, or one that is served and does not fill the
response. -/
inductive Moves (p : Policy) (registry : Nat) (rely : State Obj → State Obj → Prop) : Place Obj → Place Obj → Prop
  | skip {cursor index : Nat} {r r' : Request} {s : State Obj} {x : Item} (hstep : step cursor r = .item index r')
    (hx : r'.items[index]? = some x) (hclosed : x.complete = true) :
      Moves p registry rely ⟨cursor, r, s⟩ ⟨cursor + 1, r', s⟩
  | serve {cursor index : Nat} {r r' : Request} {s t : State Obj} {x x' : Item}
    (hstep : step cursor r = .item index r') (hx : r'.items[index]? = some x) (hopen : x.complete = false)
    (hserve : (Next.search p registry r'.requester x).Yields rely s (x', none) t)
    (hclosed : x'.complete = true) (hroom : ¬r'.maxSize < (r'.setItem index x').responseSize) :
      Moves p registry rely ⟨cursor, r, s⟩ ⟨cursor + 1, r'.setItem index x', t⟩

/-- How the repetition ends. -/
inductive Finishes (p : Policy) (registry : Nat) (rely : State Obj → State Obj → Prop) :
    Place Obj → Request × Option Error → State Obj → Prop
  | ended {cursor : Nat} {r r' : Request} {s : State Obj} (hstep : step cursor r = .over r') :
      Finishes p registry rely ⟨cursor, r, s⟩ (finish r', none) s
  | adrift {cursor : Nat} {r : Request} {s : State Obj} (hstep : step cursor r = .adrift) :
      Finishes p registry rely ⟨cursor, r, s⟩ (finish r, none) s
  | missing {cursor index : Nat} {r r' : Request} {s : State Obj} (hstep : step cursor r = .item index r')
    (hx : r'.items[index]? = none) : Finishes p registry rely ⟨cursor, r, s⟩ (finish r', none) s
  | failed {cursor index : Nat} {r r' : Request} {s t : State Obj} {x x' : Item} {error : Error}
    (hstep : step cursor r = .item index r') (hx : r'.items[index]? = some x)
    (hserve : (Next.search p registry r'.requester x).Yields rely s (x', some error) t) :
      Finishes p registry rely ⟨cursor, r, s⟩ (r'.setItem index x', some error) t
  | left {cursor index : Nat} {r r' : Request} {s t : State Obj} {x x' : Item}
    (hstep : step cursor r = .item index r') (hx : r'.items[index]? = some x)
    (hserve : (Next.search p registry r'.requester x).Yields rely s (x', none) t)
    (hopen : x'.complete = false) : Finishes p registry rely ⟨cursor, r, s⟩ (r'.setItem index x', none) t
  | full {cursor index : Nat} {r r' : Request} {s t : State Obj} {x x' : Item}
    (hstep : step cursor r = .item index r') (hx : r'.items[index]? = some x)
    (hserve : (Next.search p registry r'.requester x).Yields rely s (x', none) t)
    (hlarge : r'.maxSize < (r'.setItem index x').responseSize) :
      Finishes p registry rely ⟨cursor, r, s⟩ (finish (dropRow (r'.setItem index x') index).2, none) t

/-- A request with which a pass begins: the first one, or one that a pass has left unfinished. -/
inductive Begun (p : Policy) (registry : Nat) (rely : State Obj → State Obj → Prop) (r₀ : Request) (s₀ : State Obj) :
    Request → State Obj → Prop
  | first : Begun p registry rely r₀ s₀ r₀ s₀
  | again {r : Request} {s t : State Obj} (before : Passes (run p registry) rely r₀ s₀ (.done (r, none) s))
    (hr : r.isComplete = false) (h : rely s t) : Begun p registry rely r₀ s₀ r.retry t

/-- Where the repetition can stand, in any pass. It begins when what is asked for once has been served. -/
inductive Stands (p : Policy) (registry : Nat) (rely : State Obj → State Obj → Prop) (r₀ : Request)
    (s₀ : State Obj) : Place Obj → Prop
  | start {r : Request} {s t : State Obj} {items : List Item} (h : Begun p registry rely r₀ s₀ r s)
    (hserved : (serveOpen (Next.search p registry r.begin.requester)
      (r.begin.items.take (Repetition.start r.begin))).Yields rely s (items, none) t) :
      Stands p registry rely r₀ s₀ ⟨Repetition.start r.begin,
        { r.begin with items := items ++ r.begin.items.drop (Repetition.start r.begin) }, t⟩
  | move {a b : Place Obj} (h : Stands p registry rely r₀ s₀ a) (hmove : Moves p registry rely a b) :
      Stands p registry rely r₀ s₀ b

section Places
variable {p : Policy} {registry steps cursor : Nat} {rely : State Obj → State Obj → Prop} {r : Request}
  {s t : State Obj} {a b : Place Obj} {out : Request × Option Error} {shape : BulkShape}

theorem capacity_of_repeats {r r' : Request} (h : Repeats r r') : capacity r' = capacity r := by
  obtain ⟨items, rfl, -⟩ := h
  rfl

/-- The repetition moves from place to place until it ends. -/
theorem repeatFrom_finishes (hsteps : capacity r < cursor + steps) :
    (repeatFrom p registry steps cursor r).Ensures rely (fun _ => True) s fun out t =>
      ∃ b, Relation.ReflTransGen (Moves p registry rely) ⟨cursor, r, s⟩ b ∧ Finishes p registry rely b out t := by
  induction steps generalizing cursor r s with
  | zero =>
    -- Without steps the cursor has come to the capacity.
    have hover : step cursor r = .over r := by
      unfold step
      cases hshape : r.shape? with
      | none => rfl
      | some shape =>
        rw [capacity, hshape] at hsteps
        exact if_pos (Or.inr (Or.inr (Nat.le_of_lt hsteps)))
    exact ⟨_, .refl, .ended hover⟩
  | succ steps ih =>
    have hleads := leads_step cursor r
    have hnext (r' : Request) (hr' : capacity r' = capacity r) : capacity r' < cursor + 1 + steps := by omega
    simp only [repeatFrom]
    split
    · next hstep => exact ⟨_, .refl, .ended hstep⟩
    · next hstep => exact ⟨_, .refl, .adrift hstep⟩
    · next index r' hstep =>
      rw [hstep] at hleads
      have hcapacity := capacity_of_repeats hleads
      split
      · next hx => exact ⟨_, .refl, .missing hstep hx⟩
      · next x hx =>
        split
        · next hclosed =>
          refine (ih (hnext r' hcapacity)).mono (fun _ => id) ?_
          rintro out t ⟨b, hwalk, hends⟩
          exact ⟨b, .head (.skip hstep hx hclosed) hwalk, hends⟩
        · next hopen =>
          simp only [Activity.ensures_bind]
          refine (Activity.ensures_self _ rely s).mono (fun _ _ => trivial) ?_
          rintro ⟨x', _ | error⟩ t hserve
          · dsimp only
            split
            · next hleft => exact ⟨_, .refl, .left hstep hx hserve (by simpa using hleft)⟩
            · next hclosed =>
              split
              · next hlarge => exact ⟨_, .refl, .full hstep hx hserve hlarge⟩
              · next hroom =>
                have hmove : Moves p registry rely ⟨cursor, r, s⟩ ⟨cursor + 1, r'.setItem index x', t⟩ :=
                  .serve hstep hx (Bool.not_eq_true _ ▸ hopen) hserve (by simpa using hclosed) hroom
                refine (ih (hnext (r'.setItem index x') hcapacity)).mono (fun _ => id) ?_
                rintro out u ⟨b, hwalk, hends⟩
                exact ⟨b, .head hmove hwalk, hends⟩
          · exact ⟨_, .refl, .failed hstep hx hserve⟩

/-- The place lies within the items of a request that has its first row. -/
structure Place.Firm (shape : BulkShape) (a : Place Obj) : Prop where
  rowed : Rowed shape a.request
  start : shape.single ≤ a.cursor
  inside : a.cursor ≤ a.request.size

omit [ManagedObject Obj] in
theorem Place.Firm.grounded (h : a.Firm shape) : Grounded shape a.cursor a.request := h.rowed.grounded h.start h.inside

theorem Rowed.of_step {index : Nat} {r' : Request} (h : Rowed shape r) (hstart : shape.single ≤ cursor)
    (hsize : cursor ≤ r.size) (hstep : step cursor r = .item index r') :
    index = cursor ∧ Rowed shape r' ∧ cursor < r'.size ∧ shape.columns ≠ 0 ∧ shape.repetitions ≠ 0 := by
  rcases h.step_cases hstart hsize with
    ⟨r'', hover, -⟩ | ⟨⟨hcolumns, hrepetitions⟩, ⟨hinside, hitem⟩ | ⟨hend, -, above, -, hitem⟩⟩
  · cases hover.symm.trans hstep
  · cases hitem.symm.trans hstep
    exact ⟨rfl, h, hinside, hcolumns, hrepetitions⟩
  · cases hitem.symm.trans hstep
    refine ⟨rfl, h.append _, ?_, hcolumns, hrepetitions⟩
    have hsize : ({ r with items := r.items ++ [above.repetition cursor] } : Request).size = r.size + 1 :=
      List.length_append
    omega

theorem Moves.firm (h : Moves p registry rely a b) (ha : a.Firm shape) : b.Firm shape := by
  have hstart := ha.start
  cases h with
  | skip hstep hx hclosed =>
    obtain ⟨-, hrowed, hinside, -⟩ := ha.rowed.of_step ha.start ha.inside hstep
    exact ⟨hrowed, Nat.le_succ_of_le hstart, hinside⟩
  | @serve cursor index r r' s t x x' hstep hx hopen hserve hclosed hroom =>
    obtain ⟨-, hrowed, hinside, -⟩ := ha.rowed.of_step ha.start ha.inside hstep
    exact ⟨hrowed.setItem index x', Nat.le_succ_of_le hstart, (size_setItem r' index x').symm ▸ hinside⟩

theorem firm_of_walk (h : Relation.ReflTransGen (Moves p registry rely) a b) (ha : a.Firm shape) : b.Firm shape := by
  induction h with
  | refl => exact ha
  | tail hwalk hmove ih => exact hmove.firm ih

theorem Rowed.finish (h : Rowed shape r) : Rowed shape (Bulk.finish r) := ⟨h.shaped, h.phase, h.single, h.row⟩

theorem Rowless.finish (h : Rowless shape r) : Rowless shape (Bulk.finish r) :=
  ⟨h.shaped, h.columns, h.repetitions, h.bare⟩

/-- From a firm place the repetition ends with the first row in place, or without any row. -/
theorem Finishes.rowed_or_rowless (h : Finishes p registry rely a out t) (ha : a.Firm shape) (hout : out.2 = none) :
    Rowed shape out.1 ∨ Rowless shape out.1 := by
  obtain ⟨hrowed, hstart, hinside⟩ := ha
  cases h with
  | ended hstep =>
    rcases hrowed.step_cases hstart hinside with ⟨r'', hover, hr''⟩ | ⟨-, ⟨-, hitem⟩ | ⟨-, -, above, -, hitem⟩⟩
    · cases hover.symm.trans hstep
      exact Or.inl hr''.finish
    · cases hitem.symm.trans hstep
    · cases hitem.symm.trans hstep
  | adrift hstep => exact absurd hstep (hrowed.grounded hstart hinside).held
  | missing hstep hx =>
    obtain ⟨rfl, -, hbefore, -⟩ := hrowed.of_step hstart hinside hstep
    exact absurd hbefore (Nat.not_lt_of_le (List.getElem?_eq_none_iff.mp hx))
  | failed => cases hout
  | left hstep =>
    obtain ⟨-, hr', -⟩ := hrowed.of_step hstart hinside hstep
    exact Or.inl (hr'.setItem _ _)
  | @full cursor index r r' s t x x' hstep =>
    obtain ⟨rfl, hr', -, hcolumns, hrepetitions⟩ := hrowed.of_step hstart hinside hstep
    have hset := hr'.setItem index x'
    rcases Nat.lt_or_ge index (shape.single + shape.columns) with hfirst | hlater
    · exact Or.inr (hset.dropRow_first hcolumns hrepetitions hstart hfirst).finish
    · exact Or.inl (hset.dropRow hlater).finish

/-! ### Passes -/

omit [ManagedObject Obj] in
theorem serveOpen_length {serve : Item → Doing Obj (Item × Option Error)} (xs : List Item) :
    (serveOpen serve xs).Ensures rely (fun _ => True) s fun out _ => out.1.length = xs.length := by
  induction xs generalizing s with
  | nil => exact rfl
  | cons x xs ih =>
    simp only [serveOpen]
    split
    · simp only [Activity.ensures_bind]
      exact ih.mono (fun _ => id) fun out t h => congrArg Nat.succ h
    · simp only [Activity.ensures_bind]
      refine (Activity.ensures_self _ rely s).mono (fun _ _ => trivial) ?_
      rintro ⟨x', _ | error⟩ t -
      · simp only [Activity.ensures_bind]
        exact ih.mono (fun _ => id) fun out t h => congrArg Nat.succ h
      · rfl

theorem start_of_shape (hr : r.shape? = some shape) : Repetition.start r = shape.single := by
  rw [Repetition.start, hr]
  rfl

omit [ManagedObject Obj] in
/-- When what is asked for once has been served, the repetition stands firm. -/
theorem Rowed.firm_start (h : Rowed shape r) {items : List Item}
    (hitems : items.length = (r.items.take (Repetition.start r)).length) (t : State Obj) :
    Place.Firm shape ⟨Repetition.start r, { r with items := items ++ r.items.drop (Repetition.start r) }, t⟩ := by
  have hsize : ({ r with items := items ++ r.items.drop (Repetition.start r) } : Request).size = r.size := by
    rw [Request.size, Request.size, List.length_append, hitems, ← List.length_append, List.take_append_drop]
  have hstart := start_of_shape h.shaped
  exact ⟨⟨h.shaped, h.phase, hsize.symm ▸ h.single, hsize.symm ▸ h.row⟩, Nat.le_of_eq hstart.symm,
    hsize.symm ▸ hstart ▸ h.single⟩

theorem run_rowed (h : Rowed shape r.begin) : (run p registry r).Ensures rely (fun _ => True) s fun out _ =>
    out.2 = none → Rowed shape out.1 ∨ Rowless shape out.1 := by
  simp only [run, Activity.ensures_bind]
  refine (serveOpen_length _).mono (fun _ => id) ?_
  rintro ⟨items, _ | error⟩ t hitems
  · have hfirm := h.firm_start hitems t
    refine (repeatFrom_finishes (by omega)).mono (fun _ => id) ?_
    rintro out u ⟨b, hwalk, hends⟩ hout
    exact hends.rowed_or_rowless (firm_of_walk hwalk hfirm) hout
  · rintro ⟨⟩

theorem Rowed.retry (h : Rowed shape r) : Rowed shape r.retry.begin := by
  have hbegin : r.retry.begin = r.retry := begin_of_process h.phase
  have hsize : r.retry.size = r.size := List.length_map _
  rw [hbegin]
  exact ⟨h.shaped, h.phase, hsize.symm ▸ h.single, hsize.symm ▸ h.row⟩

/-- A request starts with its first row, unless it has no repetitions. -/
theorem rowed_start {pdu : Pdu} (hkind : pdu.kind = .getBulk) (who : Requester) (maxSize : Nat) (created : Instant) :
    Rowed (.ofPdu pdu) (Request.start who pdu maxSize created).begin := by
  have hshape : Request.shapeOf? pdu = some (.ofPdu pdu) := if_pos hkind
  rw [begin_of_start (r := .start who pdu maxSize created) (by simp [Request.start, hkind]) rfl]
  have hsize : ({ Request.start who pdu maxSize created with
      phase := .process
      items := (Request.start who pdu maxSize created).items.map Item.restart } : Request).size =
        min (Request.startCount pdu) pdu.bindings.length := by
    simp [Request.size, Request.start]
  have hcount : (BulkShape.ofPdu pdu).single + (BulkShape.ofPdu pdu).columns = pdu.bindings.length := by
    simp only [BulkShape.ofPdu]
    omega
  have hstart : Request.startCount pdu =
      if (BulkShape.ofPdu pdu).repetitions = 0 then (BulkShape.ofPdu pdu).single else pdu.bindings.length := by
    rw [Request.startCount, hshape]
  refine ⟨hshape, rfl, ?_, ?_⟩
  · rw [hsize, hstart]
    split <;> omega
  · rw [hsize, hstart]
    split <;> omega

variable {r₀ : Request} {s₀ : State Obj}

/-- A pass has left the request unfinished without its first row. -/
def Undone (p : Policy) (registry : Nat) (rely : State Obj → State Obj → Prop) (r₀ : Request) (s₀ : State Obj)
    (shape : BulkShape) : Prop :=
  ∃ r s, Passes (run p registry) rely r₀ s₀ (.done (r, none) s) ∧ r.isComplete = false ∧ Rowless shape r

/-- Whatever the others do, each pass keeps the first row or leaves no row, until one has left the request unfinished
that way. -/
theorem passes_rowed (hstart : Rowed shape r₀.begin) {q : Progress (State Obj) (Request × Option Error)}
    (h : Passes (run p registry) rely r₀ s₀ q) : Undone p registry rely r₀ s₀ shape ∨
      q.Ensures rely (fun _ => True) fun out _ => out.2 = none → Rowed shape out.1 ∨ Rowless shape out.1 := by
  induction h with
  | first => exact Or.inr (run_rowed hstart)
  | wake before hrely ih => exact ih.imp_right fun h => h.2 _ _ hrely
  | @again r s t before hr hrely ih =>
    -- The pass before has kept the first row, or it is the one that has left the request without any.
    rcases ih with hundone | hends
    · exact Or.inl hundone
    · rcases hends rfl with hrowed | hrowless
      · exact Or.inr (run_rowed hrowed.retry)
      · exact Or.inl ⟨r, s, before, hr, hrowless⟩

theorem Begun.rowed (h : Begun p registry rely r₀ s₀ r s) (hstart : Rowed shape r₀.begin) :
    Undone p registry rely r₀ s₀ shape ∨ Rowed shape r.begin := by
  cases h with
  | first => exact Or.inr hstart
  | @again r s t before hr hrely =>
    rcases passes_rowed hstart before with hundone | hends
    · exact Or.inl hundone
    · rcases hends rfl with hrowed | hrowless
      · exact Or.inr hrowed.retry
      · exact Or.inl ⟨r, s, before, hr, hrowless⟩

theorem Stands.firm (h : Stands p registry rely r₀ s₀ a) (hstart : Rowed shape r₀.begin) :
    Undone p registry rely r₀ s₀ shape ∨ a.Firm shape := by
  induction h with
  | @start r s t items hbegun hserved =>
    refine (hbegun.rowed hstart).imp_right fun hrowed => hrowed.firm_start ?_ t
    exact (Activity.ensures_iff.mp (serveOpen_length _)).2 _ _ hserved
  | move h hmove ih => exact ih.imp_right hmove.firm

/-- Wherever the repetition stands, in whatever pass, whatever the objects and the others do: the cursor reads within
the items, and what it appends goes on from the item above, in the same column of the row before. It does so unless an
earlier pass has left the request unfinished without its first row. -/
theorem grounded_of_stands {pdu : Pdu} (hkind : pdu.kind = .getBulk) {who : Requester} {maxSize : Nat}
    {created : Instant} (h : Stands p registry rely (.start who pdu maxSize created) s₀ a) :
    Grounded (.ofPdu pdu) a.cursor a.request ∨
      ∃ r s, Passes (run p registry) rely (.start who pdu maxSize created) s₀ (.done (r, none) s) ∧
        r.isComplete = false ∧ Rowless (.ofPdu pdu) r :=
  (h.firm (rowed_start hkind who maxSize created)).symm.imp_left Place.Firm.grounded

/-- With nobody else about, the repetition stands at the beginning of a second pass when what is asked for once has been
served again. -/
theorem Stands.of_result? {items : List Item} (hfirst : (run p registry r₀ s₀).result? = some ((r, none), s))
    (hr : r.isComplete = false) (hserved : (serveOpen (Next.search p registry r.retry.begin.requester)
      (r.retry.begin.items.take (Repetition.start r.retry.begin)) s).result? = some ((items, none), t)) :
    Stands p registry Eq r₀ s₀ ⟨Repetition.start r.retry.begin,
      { r.retry.begin with items := items ++ r.retry.begin.items.drop (Repetition.start r.retry.begin) }, t⟩ := by
  have hdone : Passes (run p registry) Eq r₀ s₀ (.done (r, none) s) := Progress.eq_done_of_result? hfirst ▸ .first
  refine .start (.again hdone hr rfl) ?_
  rw [Activity.Yields, Progress.eq_done_of_result? hserved]
  exact .done _ _

/-- With nobody else about, there is no third pass if the second one completes the request. -/
theorem unfinished_of_result? {r' : Request} {s' : State Obj} {out : Request × Option Error}
    (hfirst : (run p registry r₀ s₀).result? = some ((r, none), s))
    (hsecond : (run p registry r.retry s).result? = some (out, t)) (hout : out.1.isComplete = true)
    (h : Passes (run p registry) Eq r₀ s₀ (.done (r', none) s')) (hr' : r'.isComplete = false) : r' = r := by
  have hpasses (q : Progress (State Obj) (Request × Option Error)) (hq : Passes (run p registry) Eq r₀ s₀ q) :
      q = .done (r, none) s ∨ q = .done out t := by
    induction hq with
    | first => exact Or.inl (Progress.eq_done_of_result? hfirst)
    | wake before hrely ih => rcases ih with hq | hq <;> cases hq
    | again before hr hrely ih =>
      rcases ih with hq | hq
      · cases hq
        exact Or.inr (hrely ▸ Progress.eq_done_of_result? hsecond)
      · cases hq
        exact absurd hout (by simp [hr])
  rcases hpasses _ h with hq | hq
  · cases hq
    rfl
  · cases hq
    exact absurd hout (by simp [hr'])

end Places

/-! ### An archive -/

/-- A table that puts its first search off, and a scalar behind it. -/
def archive : State Instrument where
  objects id :=
    match id.number with
    | 0 => .scripted {
        region := .subtree ⟨[1, 3, 1]⟩
        values := ⟨[(⟨[1, 3, 1, 1]⟩, .integer 1), (⟨[1, 3, 1, 2]⟩, .integer 2)]⟩
        script := fun | .next => [{ edits := [.defer] }] | _ => [] }
    | _ => .scalar { oid := ⟨[1, 3, 2, 1]⟩, value := .octetString (List.replicate 40 97), writable := false }
  registries := [{
    entries := [⟨.subtree ⟨[1, 3, 1]⟩, ⟨0⟩⟩, ⟨.subtree ⟨[1, 3, 2]⟩, ⟨1⟩⟩]
    regions := [(⟨⟨1⟩, none⟩, .subtree ⟨[1, 3, 2]⟩), (⟨⟨0⟩, none⟩, .subtree ⟨[1, 3, 1]⟩)] }]
  outstanding := ⟨.seconds 300, []⟩

/-- One search in the table, and two that are repeated behind it. -/
def filing : Pdu := .askingBulk 1 1 2 [⟨[1, 3, 1]⟩, ⟨[1, 3, 2]⟩]

/-- With enough room the first pass keeps the rows, and the cursor of the second one stands within them. -/
theorem grounded_of_filing : ∃ r s a,
    Passes (run Agent.plain.policy 0) Eq (.start Next.browser filing 484 ⟨0⟩) archive (.done (r, none) s) ∧
      r.isComplete = false ∧ Stands Agent.plain.policy 0 Eq (.start Next.browser filing 484 ⟨0⟩) archive a ∧
        a.request.items.map Item.oid = [⟨[1, 3, 1, 1]⟩, ⟨[1, 3, 2, 1]⟩, ⟨[1, 3, 2, 1]⟩] ∧
          Grounded (.ofPdu filing) a.cursor a.request := by
  let start : Request := .start Next.browser filing 484 ⟨0⟩
  have hrun : (run Agent.plain.policy 0 start archive).result?.any (fun x =>
      decide (x.1.2 = none ∧ x.1.1.isComplete = false ∧ x.1.1.size = 3) &&
        ((run Agent.plain.policy 0 x.1.1.retry x.2).result?.any fun y => decide (y.1.1.isComplete = true)) &&
        (serveOpen (Next.search Agent.plain.policy 0 x.1.1.retry.begin.requester)
          (x.1.1.retry.begin.items.take (Repetition.start x.1.1.retry.begin)) x.2).result?.any fun z =>
            decide (z.1.2 = none ∧
              (z.1.1 ++ x.1.1.retry.begin.items.drop (Repetition.start x.1.1.retry.begin)).map Item.oid =
                [⟨[1, 3, 1, 1]⟩, ⟨[1, 3, 2, 1]⟩, ⟨[1, 3, 2, 1]⟩])) = true := by
    decide +kernel
  simp only [Option.any_eq_true, Bool.and_eq_true, decide_eq_true_eq] at hrun
  obtain ⟨⟨⟨r, error⟩, s⟩, hfirst, ⟨⟨rfl, hopen, hsize⟩, ⟨out, t⟩, hsecond, hcomplete⟩,
    ⟨⟨items, error⟩, u⟩, hserved, rfl, hoids⟩ := hrun
  have hstands := Stands.of_result? hfirst hopen hserved
  refine ⟨r, s, _, Progress.eq_done_of_result? hfirst ▸ .first, hopen, hstands, hoids, ?_⟩
  refine (grounded_of_stands rfl hstands).resolve_right ?_
  rintro ⟨r', s', hpasses, hr', hrowless⟩
  obtain rfl := unfinished_of_result? hfirst hsecond hcomplete hpasses hr'
  exact absurd (hsize.symm.trans hrowless.bare) (by decide)

/-- With less room the first pass drops its first row, and what was put off leaves the request unfinished. In the second
pass there is room again, but nothing to go on from. -/
theorem not_grounded_of_filing :
    ∃ a, Stands Agent.plain.policy 0 Eq (.start Next.browser filing 40 ⟨0⟩) archive a ∧
      ¬Grounded (.ofPdu filing) a.cursor a.request := by
  let start : Request := .start Next.browser filing 40 ⟨0⟩
  have hrun : (run Agent.plain.policy 0 start archive).result?.any (fun x =>
      decide (x.1.2 = none ∧ x.1.1.isComplete = false) &&
        (serveOpen (Next.search Agent.plain.policy 0 x.1.1.retry.begin.requester)
          (x.1.1.retry.begin.items.take (Repetition.start x.1.1.retry.begin)) x.2).result?.any fun z =>
            let r := { x.1.1.retry.begin with
              items := z.1.1 ++ x.1.1.retry.begin.items.drop (Repetition.start x.1.1.retry.begin) }
            decide (z.1.2 = none ∧ r.shape? = some (.ofPdu filing) ∧ r.size = 1 ∧
              r.responseSize < r.maxSize)) = true := by
    decide +kernel
  simp only [Option.any_eq_true, Bool.and_eq_true, decide_eq_true_eq] at hrun
  obtain ⟨⟨⟨r, error⟩, s⟩, hfirst, ⟨rfl, hopen⟩, ⟨⟨items, error⟩, u⟩, hserved, rfl, hshape, hbare, hroom⟩ := hrun
  refine ⟨_, Stands.of_result? hfirst hopen hserved, ?_⟩
  have hstart : Repetition.start r.retry.begin = (BulkShape.ofPdu filing).single := start_of_shape hshape
  rw [hstart] at hbare hroom ⊢
  exact Rowless.not_grounded ⟨hshape, by decide, by decide, hbare⟩ hroom

end Responder.Bulk
