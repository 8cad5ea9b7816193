import Responder.Community
import Responder.Message.Envelope

/-! Passing requests on to other engines: a table of forwarders by engine and class of request. -/

namespace Responder.Proxy

/-- The classes of requests that a forwarder can be registered for. -/
inductive Class where
  /-- Stands in for each of the others. -/
  | all
  | read
  | write
  | notify
deriving DecidableEq, Inhabited

namespace Class

def name : Class → String
  | all => "All"
  | read => "Read"
  | write => "Write"
  | notify => "Notify"

def ofName? (s : String) : Option Class := [all, read, write, notify].find? fun c => c.name == s

/-- The class of a kind of data unit; responses and reports have none. -/
def ofKind? : Pdu.Kind → Option Class
  | .get | .getNext | .getBulk => some read
  | .set => some write
  | .trapV1 | .trapV2 | .inform => some notify
  | .response | .report => none

end Class

/-- A request that is to be passed on. -/
structure Parcel where
  message : Inbound
  /-- What the community of the request stands for, if it came with one. -/
  mapping : Option Mapping
  engine : Octets
  requestClass : Class

/-- Somebody who passes requests on, and may bring back a response. -/
structure Forwarder where
  name : String
  relay : Parcel → Option Pdu

/-- The forwarders, with at most one for an engine and a class. -/
structure Routes where
  entries : List ((Octets × Class) × Forwarder) := []

namespace Routes

/-- The forwarder that is registered for exactly this engine and class. -/
def registered? (r : Routes) (engine : Octets) (c : Class) : Option Forwarder := r.entries.lookup (engine, c)

/-- The forwarder for an engine and a class: the exact one, else the one for all classes. -/
def find? (r : Routes) (engine : Octets) (c : Class) : Option Forwarder :=
  (r.registered? engine c).or (r.registered? engine .all)

/-- The table without the forwarder for exactly this engine and class. -/
def erase (r : Routes) (engine : Octets) (c : Class) : Routes :=
  ⟨r.entries.filter fun entry => entry.1 != (engine, c)⟩

/-- The table with a forwarder, in place of any earlier one for its engine and class. -/
def insert (r : Routes) (engine : Octets) (c : Class) (f : Forwarder) : Routes :=
  ⟨((engine, c), f) :: (r.erase engine c).entries⟩

def size (r : Routes) : Nat := r.entries.length

def isEmpty (r : Routes) : Bool := r.entries.isEmpty

end Routes

end Responder.Proxy
