import Responder.Request.Repetition
import Responder.Service.Next

/-! Searching in bulk: some variables once, the others again and again, row by row. A row that would
    make the response too large is dropped as a whole and ends the repetition. -/

namespace Responder.Bulk

variable {Obj : Type} [ManagedObject Obj]

/-- The request with its repetition ended. -/
def finish (r : Request) : Request := { r with bulkDone := true }

/-- Goes on with the repetition from the cursor on, for no more than `steps` items. An item that stays
open keeps the request open, as the next row goes on from it. -/
def repeatFrom (p : Policy) (registry : Nat) : Nat → Nat → Request → Doing Obj (Request × Option Error)
  | 0, _, r => return (finish r, none)
  | steps + 1, cursor, r =>
    match Repetition.step cursor r with
    | .over r => return (finish r, none)
    | .adrift => return (finish r, none)
    | .item index r =>
      match r.items[index]? with
      | none => return (finish r, none)
      | some item => do
        if item.complete then repeatFrom p registry steps (cursor + 1) r
        else
          match ← Next.search p registry r.requester item with
          | (item, some error) => return (r.setItem index item, some error)
          | (item, none) =>
            let r := r.setItem index item
            if !item.complete then return (r, none)
            else if r.maxSize < r.responseSize then return (finish (Repetition.dropRow r index).2, none)
            else repeatFrom p registry steps (cursor + 1) r

/-- The most items that a request can have. -/
def capacity (r : Request) : Nat := (r.shape?.map BulkShape.capacity).getD 0

/-- Searches in bulk. -/
def run (p : Policy) (registry : Nat) (r : Request) : Doing Obj (Request × Option Error) := do
  let r := r.begin
  let single := Repetition.start r
  let (items, error) ← serveOpen (Next.search p registry r.requester) (r.items.take single)
  let r := { r with items := items ++ r.items.drop single }
  match error with
  | some error => return (r, some error)
  | none => repeatFrom p registry (capacity r + 1 - single) single r

/-- The service that searches in bulk. -/
def service : Service Obj := ⟨(· == .getBulk), run⟩

end Responder.Bulk
