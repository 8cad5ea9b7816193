import Responder.Agent.Drive

/-! Dispatching messages: who may ask, under which name and in which context; whether the request is
    for this engine; which service and which registry it is for; and what it may see. -/

namespace Responder.Agent

variable {Obj : Type}

/-- What is found out about the sender of a message. -/
inductive Admission where
  | direct
  /-- The community of the message stands for something. -/
  | mapped (mapping : Mapping)
  | denied
deriving DecidableEq

/-- Finds out what the community of a message stands for. Of several mappings the first one counts that the
sender may use. -/
def admission (a : Agent Obj) (m : Inbound) : Admission :=
  if !m.version.isCommunityBased then .direct
  else match a.communities with
    | none => .direct
    | some communities =>
      match (communities.mappings m.securityName).find? fun x => communities.admits m.origin.peer.host x with
      | some mapping => .mapped mapping
      | none => .denied

/-- On whose behalf a message is served, still without a view. -/
def requester (m : Inbound) (mapping : Option Mapping) (transaction : TransactionId) : Requester where
  peer := m.origin.peer
  version := m.version
  model := m.model
  securityName := (mapping.map Mapping.securityName).getD m.securityName
  level := m.level
  engine := (mapping.map Mapping.engine).getD m.engine
  context := (mapping.map Mapping.context).getD m.context
  requestId := m.pdu.requestId
  kind := m.pdu.kind
  transaction
  view := none

/-- The view that access control gives to a requester: one to write for requests that write. -/
def viewFor? (tables : Vacm.Tables) (who : Requester) : Option Octets :=
  tables.viewName? who.context who.securityName who.model who.level (if who.kind = .set then .write else .read)

def refuse (a : Agent Obj) (m : Inbound) (s : State Obj) : Except Error Unit × State Obj :=
  let (value, s) := s.count .unknownPduHandlers
  if !m.pdu.kind.isConfirmed then (.ok (), s)
  else
    let pdu := if m.version = .v3 then Reply.report m.pdu .unknownPduHandlers value
      else m.pdu.toErrorResponse .genErr
    a.send m pdu false s

def serve [ManagedObject Obj] (a : Agent Obj) (m : Inbound) (mapping : Option Mapping) :
    Doing Obj (Except Error Unit) := do
  match a.serviceFor? m.pdu.kind with
  | none => modifyGet (a.refuse m)
  | some _ =>
    let who := requester m mapping (← modifyGet State.newTransaction)
    let view := a.access.map fun tables => viewFor? tables who
    let s ← get
    let request := Request.start { who with view := view.join } m.pdu m.maxSize s.now
    set { s with outstanding := s.outstanding.track who.transaction s.now }
    if view = some none then
      modifyGet (a.finish (request.fail .authorizationError) m none)
    else
      match s.registries.findIdx? fun r => r.serves who.context with
      | none => modifyGet (a.finish (request.fail .genErr) m none)
      | some registry => a.drive ⟨request, m, registry⟩

def forward (a : Agent Obj) (m : Inbound) (mapping : Option Mapping) (engine : Octets) (s : State Obj) :
    Except Error Unit × State Obj :=
  if !a.proxies then (.ok (), (s.count .silentDrops).2)
  else
    match (Proxy.Class.ofKind? m.pdu.kind).bind fun c => (s.routes.find? engine c).map (·, c) with
    | none => (.ok (), (s.count .proxyDrops).2)
    | some (forwarder, requestClass) =>
      let parcel : Proxy.Parcel := ⟨m, mapping, engine, requestClass⟩
      let s := s.note (.relay forwarder.name parcel)
      match forwarder.relay parcel with
      | some pdu => a.send m pdu (m.pdu.kind == .getBulk) s
      | none =>
        if requestClass = .notify then (.ok (), s)
        else
          let (value, s) := s.count .proxyDrops
          if m.version = .v3 then a.send m (Reply.report m.pdu .proxyDrops value) false s else (.ok (), s)

/-- What is to be done about a message. -/
inductive Course where
  /-- Nothing more: this is how it ended. -/
  | ended (result : Except Error Unit)
  /-- It is for this engine and has to be served. -/
  | serve (message : Inbound) (mapping : Option Mapping)

/-- The message with its size limit lowered to that of its community. -/
def limited (m : Inbound) (mapping : Option Mapping) : Inbound :=
  match mapping.bind Mapping.maxSize with
  | some maxSize => { m with maxSize := min m.maxSize maxSize }
  | none => m

/-- Takes a message in, up to where it would be served. Responses and reports are none of an agent's
business. -/
def receive (a : Agent Obj) (m : Inbound) (s : State Obj) : Course × State Obj :=
  if m.pdu.kind = .response ∨ m.pdu.kind = .report then (.ended (.ok ()), s)
  else
    let go (mapping : Option Mapping) : Course × State Obj :=
      let m := limited m mapping
      let engine := (mapping.map Mapping.engine).getD m.engine
      if a.settings.isOwnEngine engine then (.serve m mapping, s)
      else
        let (result, s) := a.forward m mapping engine s
        (.ended result, s)
    match a.admission m with
    | .denied => (.ended (.ok ()), (s.count .inBadCommunityNames).2)
    | .direct => go none
    | .mapped mapping => go (some mapping)

/-- Processes a message to its end, as far as it does not have to wait. -/
def process [ManagedObject Obj] (a : Agent Obj) (m : Inbound) : Doing Obj (Except Error Unit) := do
  match ← modifyGet (a.receive m) with
  | .ended result => return result
  | .serve m mapping => a.serve m mapping

end Responder.Agent
