import Responder.Message.Address
import Responder.Message.Security
import Responder.Pdu

/-! Messages on their way in and out, decoded and authenticated. An answer goes back with the
    security parameters of its request, and with what is needed to route it. -/

namespace Responder

/-- What routes an answer back to where its request came from. -/
structure ReturnAddress where
  peer : Endpoint
  messageId : Int32
  /-- A handle that means something to the transport only. -/
  handle : UInt64
deriving DecidableEq

/-- A request as it arrives. -/
structure Inbound where
  version : Version
  model : SecurityModel
  /-- The name of the user, or the community. -/
  securityName : Octets
  level : SecurityLevel
  engine : Octets
  context : Octets
  maxSize : Nat
  pdu : Pdu
  origin : ReturnAddress
deriving DecidableEq

namespace Inbound

/-- The largest response that senders accept unless they say otherwise. -/
def defaultMaxSize : Nat := 65535

def ofCommunity (version : Version) (community : Octets) (peer : Endpoint) (pdu : Pdu) : Inbound :=
  ⟨version, version.model, community, .noAuthNoPriv, [], [], defaultMaxSize, pdu, ⟨peer, pdu.requestId, 0⟩⟩

/-- A request of a user, for a context of an engine. -/
def ofUser (user : Octets) (level : SecurityLevel) (engine context : Octets) (peer : Endpoint) (pdu : Pdu) :
    Inbound :=
  ⟨.v3, .usm, user, level, engine, context, defaultMaxSize, pdu, ⟨peer, pdu.requestId, 0⟩⟩

end Inbound

/-- An answer as it leaves. -/
structure Outbound where
  version : Version
  model : SecurityModel
  securityName : Octets
  level : SecurityLevel
  engine : Octets
  context : Octets
  maxSize : Nat
  pdu : Pdu
  destination : ReturnAddress
deriving DecidableEq

def Outbound.replyTo (m : Inbound) (pdu : Pdu) : Outbound :=
  { version := m.version, model := m.model, securityName := m.securityName, level := m.level, engine := m.engine,
    context := m.context, maxSize := m.maxSize, pdu, destination := m.origin }

end Responder
