import Responder.Service.Basic

/-! Reading variables: one look-up for each. What is missing, or hidden by the view, is a missing
    object. The first version of the protocol cannot carry a counter of 64 bits, so there such a
    variable is a missing instance. -/

namespace Responder.Get

variable {Obj : Type} [ManagedObject Obj]

/-- The item after its object has answered. -/
def conclude (who : Requester) (item : Item) : Item :=
  let item := if who.version = .v1 ∧ item.value.isCounter64 then item.setValue .noSuchInstance else item
  if item.deferred then item else item.finish

/-- Reads one variable. -/
def serve (p : Policy) (registry : Nat) (who : Requester) (item : Item) : Doing Obj (Item × Option Error) := do
  let found ← p.lookUp registry who (p.query who item.region false)
  match found.entry with
  | none =>
    if found.lock = .timedOut then return (item.defer, none)
    else return ((item.setValue .noSuchObject).finish, none)
  | some entry =>
    let (item, result) ← callObject .get who entry.object item
    found.release registry who entry.object
    match result with
    | .ok _ => return (conclude who item, none)
    | .error fault => return p.report item .genErr fault

/-- Reads the variables of a request. -/
def run (p : Policy) (registry : Nat) (r : Request) : Doing Obj (Request × Option Error) := do
  let r := r.begin
  let (items, error) ← serveOpen (serve p registry r.requester) r.items
  return ({ r with items }, error)

def service : Service Obj := ⟨(· == .get), run⟩

end Responder.Get
