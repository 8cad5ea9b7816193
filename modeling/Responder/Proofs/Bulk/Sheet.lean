import Mathlib.Data.List.Basic
import Responder.Proofs.Size

/-! What a search in bulk stands for: single searches, row by row. Each row goes on from the one before, column by
    column, and the rows end with the last repetition or with the first row that holds nothing but ends of the view
    (`Sheet.expansion`). While the rows are filled in, there are some whole ones and a part of the next one
    (`Sheet.filled`). -/

namespace Responder.Bulk

/-- A request in bulk, and what the search past each identifier comes to. -/
structure Sheet where
  pdu : Pdu
  answer : Oid → Binding

namespace Sheet
variable (T : Sheet)

def shape : BulkShape := .ofPdu T.pdu

/-- What follows in a column: a marker stays, and anything else is searched on from. -/
def again (b : Binding) : Binding := if b.value.isException then b else T.answer b.oid

/-- The answers to what is asked for once. -/
def head : List Binding := (T.pdu.bindings.take T.shape.single).map fun b => T.answer b.oid

def row : Nat → List Binding
  | 0 => (T.pdu.bindings.drop T.shape.single).map fun b => T.answer b.oid
  | k + 1 => (row k).map T.again

def isLast (k : Nat) : Bool := (T.row k).all fun b => b.value.isEndOfView

/-- How many rows there are. -/
def height : Nat := (((List.range T.shape.repetitions).find? T.isLast).map (· + 1)).getD T.shape.repetitions

/-- The answers with so many rows. -/
def rows (k : Nat) : List Binding := T.head ++ (List.range k).flatMap T.row

/-- The whole answer. -/
def expansion : List Binding := T.rows T.height

/-- The answers with so many rows and a part of the next one. -/
def filled (k j : Nat) : List Binding := T.rows k ++ (T.row k).take j

/-- What is asked for in the first row and still has to be answered. -/
def pending : Nat → Nat → List Binding
  | 0, j => T.pdu.bindings.drop (T.shape.single + j)
  | _ + 1, _ => []

/-- Everything that a request holds while it is answered. -/
def shown (k j : Nat) : List Binding := T.filled k j ++ T.pending k j

/-- The place of a column of a row. -/
def place (k j : Nat) : Nat := T.shape.single + k * T.shape.columns + j

/-- How large the response is with some bindings. -/
def size (bs : List Binding) : Nat := (T.pdu.answer bs).size

/-- The last column of the row after this one is taken over from it. -/
def endsInMarker (k : Nat) : Bool := (T.row k).getLast?.any fun b => b.value.isException

variable {T} {i j k : Nat}

theorem again_of_marker {b : Binding} (hb : b.value.isException = true) : T.again b = b := if_pos hb

theorem again_of_value {b : Binding} (hb : b.value.isException = false) : T.again b = T.answer b.oid := by
  rw [again, hb, if_neg Bool.false_ne_true]

/-! ### Lengths -/

theorem single_add_columns : T.shape.single + T.shape.columns = T.pdu.bindings.length := by
  show min T.pdu.errorStatus.toInt.toNat T.pdu.bindings.length +
    (T.pdu.bindings.length - min T.pdu.errorStatus.toInt.toNat T.pdu.bindings.length) = _
  omega

@[simp] theorem length_head : T.head.length = T.shape.single := by
  have hcount := T.single_add_columns
  rw [head, List.length_map, List.length_take]
  omega

@[simp] theorem length_row (k : Nat) : (T.row k).length = T.shape.columns := by
  induction k with
  | zero =>
    have hcount := T.single_add_columns
    rw [row, List.length_map, List.length_drop]
    omega
  | succ k ih => rw [row, List.length_map, ih]

@[simp] theorem rows_zero : T.rows 0 = T.head := List.append_nil _

theorem rows_succ (k : Nat) : T.rows (k + 1) = T.rows k ++ T.row k := by
  rw [rows, rows, List.range_succ, List.flatMap_append, List.flatMap_singleton, List.append_assoc]

@[simp] theorem length_rows (k : Nat) : (T.rows k).length = T.shape.single + k * T.shape.columns := by
  induction k with
  | zero => simp
  | succ k ih => rw [rows_succ, List.length_append, ih, length_row, Nat.succ_mul, Nat.add_assoc]

theorem length_filled (h : j ≤ T.shape.columns) : (T.filled k j).length = T.place k j := by
  rw [filled, List.length_append, length_rows, List.length_take, length_row, Nat.min_eq_left h, place]

theorem length_pending : (T.pending 0 j).length = T.shape.columns - j := by
  have hcount := T.single_add_columns
  rw [pending, List.length_drop]
  omega

theorem place_columns (k : Nat) : T.place k T.shape.columns = T.place (k + 1) 0 := by
  rw [place, place, Nat.succ_mul, Nat.add_zero, Nat.add_assoc]

theorem rows_of_bare (h : T.shape.columns = 0) (k : Nat) : T.rows k = T.head := by
  induction k with
  | zero => exact T.rows_zero
  | succ k ih =>
    have hrow : T.row k = [] := List.length_eq_zero_iff.mp ((T.length_row k).trans h)
    rw [rows_succ, hrow, List.append_nil, ih]

/-! ### Filling in -/

@[simp] theorem filled_zero (k : Nat) : T.filled k 0 = T.rows k := List.append_nil _

@[simp] theorem filled_columns (k : Nat) : T.filled k T.shape.columns = T.rows (k + 1) := by
  rw [filled, rows_succ, ← T.length_row k, List.take_length]

theorem filled_succ {b : Binding} (hb : (T.row k)[j]? = some b) : T.filled k (j + 1) = T.filled k j ++ [b] := by
  rw [filled, filled, List.take_add_one, hb, Option.toList_some, List.append_assoc]

theorem filled_isPrefix (h : i ≤ j) : T.filled k i <+: T.filled k j :=
  (List.prefix_append_right_inj _).mpr (List.take_prefix_take_left h)

theorem rows_isPrefix (h : i ≤ k) : T.rows i <+: T.rows k := by
  induction h with
  | refl => exact List.prefix_rfl
  | step h ih => exact ih.trans (rows_succ _ ▸ List.prefix_append _ _)

theorem take_filled (k j : Nat) : (T.filled k j).take (T.place k 0) = T.rows k := by
  have hplace : T.place k 0 = (T.rows k).length := (T.length_rows k).symm
  rw [filled, hplace, List.take_left]

theorem pending_eq_cons (hj : j < T.shape.columns) :
    ∃ c, T.pending 0 j = c :: T.pending 0 (j + 1) ∧ (T.row 0)[j]? = some (T.answer c.oid) := by
  have hinside : T.shape.single + j < T.pdu.bindings.length := by
    have hcount := T.single_add_columns
    omega
  refine ⟨T.pdu.bindings[T.shape.single + j], List.drop_eq_getElem_cons hinside, ?_⟩
  rw [row, List.getElem?_map, List.getElem?_drop, List.getElem?_eq_getElem hinside, Option.map_some]

theorem exists_getElem?_row (k : Nat) (hj : j < T.shape.columns) : ∃ b, (T.row k)[j]? = some b :=
  ⟨_, List.getElem?_eq_getElem (T.length_row k ▸ hj)⟩

theorem getElem?_row_succ (k : Nat) {b : Binding} (hb : (T.row k)[j]? = some b) :
    (T.row (k + 1))[j]? = some (T.again b) := by
  rw [row, List.getElem?_map, hb, Option.map_some]

theorem endsInMarker_eq (hj : j + 1 = T.shape.columns) {b : Binding} (hb : (T.row k)[j]? = some b) :
    T.endsInMarker k = b.value.isException := by
  rw [endsInMarker, List.getLast?_eq_getElem?, T.length_row, ← hj, Nat.add_sub_cancel, hb, Option.any_some]

/-! ### Sizes -/

theorem size_filled_le (h : i ≤ j) : T.size (T.filled k i) ≤ T.size (T.filled k j) :=
  Pdu.size_le_of_isPrefix (filled_isPrefix h)

theorem size_filled_lt (h : i < j) (hj : j ≤ T.shape.columns) : T.size (T.filled k i) < T.size (T.filled k j) := by
  refine Pdu.size_lt_of_isPrefix (filled_isPrefix h.le) ?_
  rw [length_filled (h.le.trans hj), length_filled hj, place, place]
  omega

theorem size_rows_le (h : i ≤ k) : T.size (T.rows i) ≤ T.size (T.rows k) := Pdu.size_le_of_isPrefix (rows_isPrefix h)

theorem getElem?_filled_succ (hi : i < T.shape.columns) :
    (T.filled (k + 1) j)[T.place k i]? = (T.row k)[i]? := by
  have hlength := T.length_rows k
  unfold place
  rw [filled, rows_succ, List.append_assoc, List.getElem?_append_right (by omega), hlength, Nat.add_sub_cancel_left,
    List.getElem?_append_left (by rwa [length_row])]

/-! ### The number of rows -/

theorem height_le : T.height ≤ T.shape.repetitions := by
  unfold height
  cases hfind : (List.range T.shape.repetitions).find? T.isLast with
  | none => exact le_rfl
  | some k => exact List.mem_range.mp (List.mem_of_find?_eq_some hfind)

/-- There is a further row while repetitions are left and no row before was the last one. -/
theorem lt_height_iff : k < T.height ↔ k < T.shape.repetitions ∧ ∀ i < k, T.isLast i = false := by
  unfold height
  cases hfind : (List.range T.shape.repetitions).find? T.isLast with
  | none =>
    rw [List.find?_eq_none] at hfind
    refine (and_iff_left_of_imp fun hk i hi => ?_).symm
    exact Bool.not_eq_true _ ▸ hfind i (List.mem_range.mpr (hi.trans hk))
  | some m =>
    rw [List.find?_range_eq_some] at hfind
    obtain ⟨hlast, hm, hbefore⟩ := hfind
    show k < m + 1 ↔ _
    constructor
    · intro hk
      refine ⟨lt_of_lt_of_le hk (List.mem_range.mp hm), fun i hi => ?_⟩
      exact Bool.not_eq_true' _ ▸ hbefore i (by omega)
    · rintro ⟨-, hnone⟩
      refine Nat.lt_succ_of_le (Nat.le_of_not_lt fun hlt => ?_)
      cases (hnone m hlt).symm.trans hlast

end Sheet
end Responder.Bulk
