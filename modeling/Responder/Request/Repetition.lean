import Responder.Request.Basic

/-! Repetition in bulk requests. The items form rows behind those that are asked for once, and a
    cursor goes from item to item; where it stands behind the last item it appends one, which goes
    on from the item in the same column of the row before. -/

namespace Responder.Repetition

/-- Where a step of the cursor leads. -/
inductive Step where
  /-- There is nothing more to repeat. -/
  | over (request : Request)
  /-- The item at `index` is next. -/
  | item (index : Nat) (request : Request)
  /-- The cursor stands where there is no row before it to go on from. -/
  | adrift
deriving DecidableEq

/-- The cursor at the first repeated item. -/
def start (r : Request) : Nat := (r.shape?.map BulkShape.single).getD 0

/-- Whether the cursor stands at the start of a row other than the first. -/
def isRowStart (shape : BulkShape) (cursor : Nat) : Bool :=
  shape.single < cursor && (cursor - shape.single) % shape.columns == 0

/-- The items of the row before the cursor. -/
def rowBefore (shape : BulkShape) (cursor : Nat) (r : Request) : List Item :=
  (r.items.drop (cursor - shape.columns)).take shape.columns

/-- The request without the row of an item and all that follows, and how many items it keeps. -/
def dropRow (r : Request) (index : Nat) : Nat × Request :=
  match r.shape? with
  | none => (r.size, r)
  | some shape =>
    if shape.columns = 0 ∨ index < shape.single then (r.size, r)
    else
      let kept := shape.single + (index - shape.single) / shape.columns * shape.columns
      (kept, r.truncate kept)

/-- The request with one more item at the cursor, if the response is not full yet. A response that becomes
full within a row loses that row. -/
def append (shape : BulkShape) (cursor : Nat) (r : Request) : Step :=
  if r.maxSize ≤ r.responseSize then
    if (cursor - shape.single) % shape.columns ≠ 0 then .over (dropRow r cursor).2 else .over r
  else if cursor < shape.columns then .adrift
  else match r.items[cursor - shape.columns]? with
    | none => .adrift
    | some above => .item cursor { r with items := r.items ++ [above.repetition cursor] }

/-- One step of the cursor. Repetition ends with the last repetition, with a row that holds nothing but
ends of the view, or with a full response. -/
def step (cursor : Nat) (r : Request) : Step :=
  match r.shape? with
  | none => .over r
  | some shape =>
    if shape.columns = 0 ∨ shape.repetitions = 0 ∨ shape.capacity ≤ cursor then .over r
    else if isRowStart shape cursor ∧ r.size < cursor then .adrift
    else if isRowStart shape cursor ∧ (rowBefore shape cursor r).all fun i => i.value.isEndOfView then
      .over (r.truncate cursor)
    else if r.size ≤ cursor then append shape cursor r
    else .item cursor r

end Responder.Repetition
