import Responder.Binding
import Responder.Status

/-! Protocol data units: requests, responses, notifications and reports, with the size of their
    encoding. A bulk request keeps its two counts where the others keep the error status and index. -/

namespace Responder

namespace Pdu

/-- The kinds of protocol data units. -/
inductive Kind where
  | get
  | getNext
  | response
  | set
  | trapV1
  | getBulk
  | inform
  | trapV2
  | report
deriving DecidableEq, Inhabited

namespace Kind

/-- Every kind, in the order of their tags. -/
def all : List Kind := [get, getNext, response, set, trapV1, getBulk, inform, trapV2, report]

def tag : Kind → UInt8
  | get => 0xA0
  | getNext => 0xA1
  | response => 0xA2
  | set => 0xA3
  | trapV1 => 0xA4
  | getBulk => 0xA5
  | inform => 0xA6
  | trapV2 => 0xA7
  | report => 0xA8

def ofTag? (tag : UInt8) : Option Kind := all.find? fun kind => kind.tag == tag

def name : Kind → String
  | get => "GetRequest"
  | getNext => "GetNextRequest"
  | response => "Response"
  | set => "SetRequest"
  | trapV1 => "TrapV1"
  | getBulk => "GetBulkRequest"
  | inform => "InformRequest"
  | trapV2 => "TrapV2"
  | report => "Report"

def ofName? (s : String) : Option Kind := all.find? fun kind => kind.name == s

/-- Whether the sender waits for a response. -/
def isConfirmed : Kind → Bool
  | get | getNext | getBulk | set | inform => true
  | response | trapV1 | trapV2 | report => false

/-- Whether the request searches for the variables that follow the named ones. -/
def isSearch : Kind → Bool
  | getNext | getBulk => true
  | _ => false

end Kind

end Pdu

/-- A protocol data unit. -/
structure Pdu where
  kind : Pdu.Kind
  requestId : Int32
  /-- The error status; in a bulk request, the number of variables that are asked for once. -/
  errorStatus : Int32
  /-- The error index; in a bulk request, how often the other variables are asked for. -/
  errorIndex : Int32
  bindings : List Binding
deriving DecidableEq, Inhabited

namespace Pdu

def asking (kind : Kind) (requestId : Int32) (oids : List Oid) : Pdu :=
  ⟨kind, requestId, 0, 0, oids.map Binding.unset⟩

def setting (requestId : Int32) (bindings : List Binding) : Pdu := ⟨.set, requestId, 0, 0, bindings⟩

def askingBulk (requestId nonRepeaters maxRepetitions : Int32) (oids : List Oid) : Pdu :=
  ⟨.getBulk, requestId, nonRepeaters, maxRepetitions, oids.map Binding.unset⟩

def status (p : Pdu) : Status := Status.ofCode p.errorStatus

/-- The response to the request, still without bindings. -/
def toResponse (p : Pdu) : Pdu := ⟨.response, p.requestId, 0, 0, []⟩

/-- The response that repeats the request's bindings under an error status. -/
def toErrorResponse (p : Pdu) (status : Status) : Pdu := ⟨.response, p.requestId, status.code, 0, p.bindings⟩

/-- Octets of the content of an encoding whose bindings take `bindingsSize`. -/
def contentSize (p : Pdu) (bindingsSize : Nat) : Nat :=
  Ber.elementSize (Ber.integerSize p.requestId) + Ber.elementSize (Ber.integerSize p.errorStatus) +
    Ber.elementSize (Ber.integerSize p.errorIndex) + bindingsSize

def size (p : Pdu) : Nat := Ber.elementSize (p.contentSize (Binding.listSize p.bindings))

end Pdu

end Responder
