import Responder.Agent.Basic
import Responder.Service.Canned
import Responder.Written.Message

/-! The parts of an agent as documents: registries, forwarders, services that ask no object, and short
    settings, which give times in milliseconds. -/

namespace Responder

def Registry.ofDocument (d : Document) : Registry :=
  let locking : Locking := match d.textOf "locking" with
    | "always" => .always
    | "none" => .never
    | _ => .writes
  (d.itemsOf "contexts").foldl (fun r context => r.addContext (.ofDocument context)) { locking }

namespace Proxy

/-- Reads a class of requests. -/
def Class.ofWord (d : Document) : Reading Class :=
  match Class.ofName? (d.textOr "") with
  | some c => .ok c
  | none => .error .malformed

/-- Reads what a forwarder brings back for a request. -/
def answerOfDocument (d : Document) : Reading (Parcel → Option Pdu) :=
  if d.isNull then .ok fun _ => none
  else do
    let bindings ← d.bindingsOf "vbs"
    let errorStatus := (d.member "status").int32
    match Pdu.Kind.ofName? ((d.member "type").textOr Pdu.Kind.response.name) with
    | some kind => return fun parcel => some { parcel.message.pdu.toResponse with kind, errorStatus, bindings }
    | none => throw .malformed

/-- Reads a forwarder, with the engine and the class that it is for. -/
def Forwarder.ofDocument (d : Document) : Reading (Octets × Class × Forwarder) := do
  let requestClass ← Class.ofWord (d.member "type")
  return (d.octetsOf "engine", requestClass, ⟨d.textOf "name", ← answerOfDocument (d.member "answer")⟩)

end Proxy

/-- Reads a service that does the same about each request of some kinds. -/
def Canned.ofDocument {Obj : Type} (d : Document) : Reading (Service Obj) := do
  let kinds := (d.itemsOf "types").filterMap fun name => Pdu.Kind.ofName? (name.textOr "")
  let deed : Deed ← match d.textOf "action" with
    | "complete" => return service kinds (.complete (← (d.member? "value" Value.ofDocument).sequence))
    | "fail" => pure .fail
    | "error" => pure (.refuse "handler failed")
    | _ => pure .nothing
  return service kinds deed

/-- Reads short settings. -/
def Settings.ofBrief (d : Document) : Settings where
  requestTimeout := .milliseconds (d.naturalOf "request_timeout_ms" 300000)
  lockTimeout := .milliseconds (d.naturalOf "lock_timeout_ms" 1)
  maxConcurrent := d.naturalOf "pool" 0
  forwardFaults := d.flag "forward"
  ownEngines := (d.itemsOf "engines").map .ofDocument

def Outlet.ofDocument : Document → Option Outlet
  | .text "closed" => some .closed
  | .text "none" => none
  | _ => some .open

end Responder
