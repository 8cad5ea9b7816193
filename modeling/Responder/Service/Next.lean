import Responder.Service.Basic

/-! Searching for the variable that follows. Objects that have nothing left in the region of the search
    are taken off the region, and so are counters of 64 bits where the protocol cannot carry them.
    When nothing is left of the region, the view ends. -/

namespace Responder.Next

variable {Obj : Type} [ManagedObject Obj]

/-- The item at the end of the view. -/
def endOfView (item : Item) : Item := (item.setValue .endOfMibView).finish

/-- How many laps a search takes at most: one for each candidate, those that candidates may take beyond it because they
offer what cannot be carried, and one for the end. -/
def bound (p : Policy) (registry : Nat) (who : Requester) (item : Item) (s : State Obj) : Nat :=
  ((s.registry registry).candidates (p.query who item.region false)).length + p.patience + 1

/-- Searches for the first variable in the region of an item, in no more than `laps` laps. -/
def serve (p : Policy) (registry : Nat) (who : Requester) : Nat → Item → Doing Obj (Item × Option Error)
  | 0, item => return (item, none)
  | laps + 1, item => do
    let found ← p.lookUp registry who (p.query who item.region false)
    match found.entry with
    | none => return (if found.lock = .timedOut then item.defer else endOfView item, none)
    | some entry =>
      let (item, result) ← callObject .next who entry.object item
      found.release registry who entry.object
      match result with
      | .error fault => return p.report item .genErr fault
      | .ok true =>
        if who.version = .v1 ∧ item.value.isCounter64 then
          serve p registry who laps { item.setValue .null with region := item.region.past item.oid }
        else return (if item.deferred then item else item.finish, none)
      | .ok false =>
        let region := item.region.above entry.region.toRange
        let item := { item.setValue .null with region }
        if region.isEmpty then return (endOfView item, none) else serve p registry who laps item

/-- Searches for the first variable in the region of an item. -/
def search (p : Policy) (registry : Nat) (who : Requester) (item : Item) : Doing Obj (Item × Option Error) := do
  serve p registry who (bound p registry who item (← get)) item

/-- Searches for the variables that follow those of a request. -/
def run (p : Policy) (registry : Nat) (r : Request) : Doing Obj (Request × Option Error) := do
  let r := r.begin
  let (items, error) ← serveOpen (search p registry r.requester) r.items
  return ({ r with items }, error)

def service : Service Obj := ⟨(· == .getNext), run⟩

end Responder.Next
