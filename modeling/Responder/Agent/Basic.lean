import Responder.Message.Reply
import Responder.Service.Bulk
import Responder.Service.Get
import Responder.Service.Set
import Responder.Settings

/-! Agents: the parts that stay as they are while requests are served, and how an answer leaves. -/

namespace Responder

/-- What answers are handed to. -/
inductive Outlet where
  | open
  | closed
deriving DecidableEq, Inhabited

/-- An agent, apart from the state that its requests share. -/
structure Agent (Obj : Type) where
  settings : Settings := {}
  /-- The services, the preferred one first. -/
  services : List (Service Obj)
  access : Option Vacm.Tables := none
  communities : Option Communities := none
  /-- Whether requests for other engines may be passed on. -/
  proxies : Bool := false
  outlet : Outlet := .open
  /-- How far searches may outrun their registries, which bounds their recursion and is no rule of the protocol
  (`Policy.patience`). -/
  patience : Nat := 1000000

namespace Agent

variable {Obj : Type} [ManagedObject Obj]

def standardServices : List (Service Obj) := [Get.service, Next.service, Bulk.service, Set.service]

def noOutlet : Error := .settings "a response sender is required"

def noRegistry : Error := .settings "at least one registry is required"

/-- Puts an agent together. Added services come before the standard ones. -/
def build (settings : Settings) (added : List (Service Obj)) (access : Option Vacm.Tables)
    (communities : Option Communities) (proxies : Bool) (outlet : Option Outlet) (hasRegistry : Bool) :
    Except Error (Agent Obj) :=
  match outlet with
  | none => .error noOutlet
  | some outlet =>
    if !hasRegistry then .error noRegistry
    else .ok { settings, services := added ++ standardServices, access, communities, proxies, outlet }

/-- What the agent's services apply to every look-up and call. -/
def policy (a : Agent Obj) : Policy where
  lockTimeout := a.settings.lockTimeout
  forwardFaults := a.settings.forwardFaults
  access := a.access
  patience := a.patience

def serviceFor? (a : Agent Obj) (kind : Pdu.Kind) : Option (Service Obj) := a.services.find? fun s => s.serves kind

omit [ManagedObject Obj] in
/-- Hands an answer over, if it can be made to fit; one that cannot is counted. -/
def send (a : Agent Obj) (m : Inbound) (pdu : Pdu) (bulk : Bool) (s : State Obj) : Except Error Unit × State Obj :=
  match Reply.fit? pdu bulk m.maxSize with
  | none => (.ok (), (s.count .silentDrops).2)
  | some pdu =>
    match a.outlet with
    | .closed => (.error .undelivered, s)
    | .open => (.ok (), { s with sent := s.sent ++ [Outbound.replyTo m pdu] })

omit [ManagedObject Obj] in
/-- Ends a request: it is no longer outstanding, holds no locks, and is answered. -/
def finish (a : Agent Obj) (r : Request) (m : Inbound) (registry : Option Nat) (s : State Obj) :
    Except Error Unit × State Obj :=
  let s := { s with outstanding := s.outstanding.remove r.transaction }
  let s := match registry with
    | some registry => (s.releaseLocks registry r.transaction).2
    | none => s
  let pdu := if m.version = .v1 then Reply.forV1 r.toResponse else r.toResponse
  a.send m pdu (r.pdu.kind == .getBulk) s

end Agent

end Responder
