import Responder.Request.Item
import Responder.Time

/-! Requests in progress. Reading takes a single phase; writing goes through prepare, commit, undo if
    something fails, and cleanup. A phase is over when it is over for every item. -/

namespace Responder

/-- The phases of a request. -/
inductive Phase where
  | start
  /-- The only phase of a request that reads. -/
  | process
  | prepare
  | commit
  | undo
  | cleanup
deriving DecidableEq, Inhabited

def Phase.name : Phase → String
  | start => "init"
  | process => "process"
  | prepare => "prepare"
  | commit => "commit"
  | undo => "undo"
  | cleanup => "cleanup"

/-- How a bulk request repeats its variables. -/
structure BulkShape where
  /-- How many variables are asked for once. -/
  single : Nat
  /-- How often the others are asked for. -/
  repetitions : Nat
  columns : Nat
deriving DecidableEq, Inhabited

namespace BulkShape

/-- The shape that a bulk request asks for: negative counts are zero, and no more variables than there are
are asked for once. -/
def ofPdu (p : Pdu) : BulkShape :=
  let single := min p.errorStatus.toInt.toNat p.bindings.length
  ⟨single, p.errorIndex.toInt.toNat, p.bindings.length - single⟩

/-- The most items that the request can have. -/
def capacity (s : BulkShape) : Nat := s.single + s.repetitions * s.columns

end BulkShape

/-- A request in progress. -/
structure Request where
  requester : Requester
  pdu : Pdu
  items : List Item
  phase : Phase := .start
  /-- The error of the request as a whole. -/
  status : Status := .noError
  /-- Whether a bulk request has been repeated as often as it will be. -/
  bulkDone : Bool := false
  /-- The largest response that the requester accepts, in octets. -/
  maxSize : Nat
  retries : Nat := 0
  created : Instant
deriving DecidableEq

namespace Request

/-- The shape of a bulk request. -/
def shapeOf? (p : Pdu) : Option BulkShape := if p.kind = .getBulk then some (.ofPdu p) else none

/-- What an item addresses: a search goes past the variable, anything else is for it. -/
def regionOf (p : Pdu) (context : Octets) (o : Oid) : Region :=
  (if p.kind.isSearch then Region.after o else Region.point o).inContext (some context)

/-- How many items a request starts with. Without repetitions the repeated variables are left out. -/
def startCount (p : Pdu) : Nat :=
  match shapeOf? p with
  | some shape => if shape.repetitions = 0 then shape.single else p.bindings.length
  | none => p.bindings.length

/-- A request at its start, with one item for each variable. -/
def start (requester : Requester) (pdu : Pdu) (maxSize : Nat) (created : Instant) : Request where
  requester
  pdu
  items := (pdu.bindings.take (startCount pdu)).mapIdx fun index binding =>
    { index, binding, region := regionOf pdu requester.context binding.oid }
  maxSize
  created

def transaction (r : Request) : TransactionId := r.requester.transaction

/-- The shape of a bulk request. -/
def shape? (r : Request) : Option BulkShape := shapeOf? r.pdu

def size (r : Request) : Nat := r.items.length

/-- Whether the request writes, and so goes through two phases at least. -/
def isTwoPhase (r : Request) : Bool := r.pdu.kind == .set

/-- Whether an error was reported for the request or an item. -/
def hasError (r : Request) : Bool := r.status.isError || r.items.any Item.hasError

/-- The phase after the current one; the last phase has none. -/
def following? (r : Request) : Option Phase :=
  match r.phase with
  | .start => some (if r.isTwoPhase then .prepare else .process)
  | .prepare =>
    some (if r.hasError then (if r.items.any Item.prepared then .undo else .cleanup) else .commit)
  | .commit => some (if r.hasError then .undo else .cleanup)
  | .undo => some .cleanup
  | .process | .cleanup => none

/-- The request at the start of its next phase. -/
def advance? (r : Request) : Option Request :=
  r.following?.map fun phase => { r with phase, items := r.items.map Item.restart }

/-- The request in a phase: one that has not started yet starts. -/
def begin (r : Request) : Request :=
  if r.phase = .start then r.advance?.getD r else r

/-- Whether the current phase is over. An error of the request as a whole ends every phase. -/
def isPhaseComplete (r : Request) : Bool :=
  r.status.isError || (r.items.all Item.complete && (r.shape?.isNone || r.bulkDone))

/-- Whether the last phase is over. -/
def isComplete (r : Request) : Bool :=
  r.phase == (if r.isTwoPhase then .cleanup else .process) && r.isPhaseComplete

/-- The error that is reported: that of the request, else that of the first item with one. -/
def reportedStatus (r : Request) : Status :=
  if r.status.isError then r.status
  else ((r.items.map Item.status).find? Status.isError).getD .noError

/-- The place of the first item with an error, counted from one; zero if there is none. -/
def errorIndex (r : Request) : Nat :=
  match r.items.findIdx? Item.hasError with
  | some i => i + 1
  | none => 0

/-- The request, failed as a whole: its first item has the error, or itself if it has no items. -/
def fail (r : Request) (status : Status) : Request :=
  let failed := match r.items with
    | [] => { r with status }
    | first :: rest => { r with items := first.setError status :: rest }
  { failed with items := failed.items.map Item.finish, bulkDone := true }

/-- The request, taken up again. -/
def retry (r : Request) : Request :=
  { r with items := r.items.map fun i => { i with deferred := false }, retries := r.retries + 1 }

def finishAll (r : Request) : Request :=
  { r with items := r.items.map fun i => if i.complete then i else i.finish }

def truncate (r : Request) (count : Nat) : Request := { r with items := r.items.take count }

def setItem (r : Request) (index : Nat) (item : Item) : Request := { r with items := r.items.set index item }

/-- A natural number as an error index; one that is too large becomes the largest. -/
def clampIndex (n : Nat) : Int32 := if n ≤ 2147483647 then Int32.ofNat n else Int32.maxValue

/-- The response without its bindings. -/
def responseHeader (r : Request) : Pdu :=
  if r.reportedStatus.isError
  then { r.pdu.toResponse with errorStatus := r.reportedStatus.code, errorIndex := clampIndex r.errorIndex }
  else r.pdu.toResponse

/-- The response: what the items hold. -/
def toResponse (r : Request) : Pdu := { r.responseHeader with bindings := r.items.map Item.binding }

def responseSize (r : Request) : Nat :=
  Ber.elementSize (r.responseHeader.contentSize (Binding.listSize (r.items.map Item.binding)))

end Request

end Responder
