import Responder.Request.Item
import Responder.Written.Access

/-! Messages and requesters as documents. -/

namespace Responder

def Version.ofDocument : Document → Version
  | .text "v1" => v1
  | .text "v3" => v3
  | _ => v2c

namespace Endpoint

/-- Where messages come from unless they say otherwise. -/
def usual : String := "192.0.2.10:50161"

def ofDocument (d : Document) : Reading Endpoint :=
  match Address.readEndpoint? (d.textOr usual) with
  | some peer => .ok peer
  | none => .error .malformed

end Endpoint

/-- Reads a message. What is missing is as in a message of a community or of a user. -/
def Inbound.ofDocument (d : Document) : Reading Inbound := do
  let pdu ← Pdu.ofDocument (d.member "pdu")
  let version := Version.ofDocument (d.member "version")
  let peer ← Endpoint.ofDocument (d.member "peer")
  let name := (d.octetsOf? "name").getD (.ofText "public")
  let m := if version = .v3
    then ofUser name (.ofDocument (d.member "level")) (d.octetsOf "engine") (d.octetsOf "context") peer pdu
    else ofCommunity version name peer pdu
  return { m with
    engine := (d.octetsOf? "engine").getD m.engine
    context := (d.octetsOf? "context").getD m.context
    model := (d.member? "model" .ofDocument).getD m.model
    maxSize := d.naturalOf "max_size" m.maxSize
    origin := { m.origin with
      messageId := (d.member? "message_id" Document.int32).getD m.origin.messageId
      handle := (d.member "handle").uint64 } }

/-- Writes an answer, with the size of its data unit. -/
def Outbound.toDocument (m : Outbound) : Document :=
  .record [("peer", .text m.destination.peer.text), ("message_id", .integer m.destination.messageId.toInt),
    ("handle", .text (Decimal.text m.destination.handle.toNat)), ("version", .text m.version.name),
    ("model", m.model.toDocument), ("name", m.securityName.toDocument), ("level", m.level.toDocument),
    ("engine", m.engine.toDocument), ("context", m.context.toDocument), ("max", .natural m.maxSize),
    ("len", .natural m.pdu.size), ("pdu", m.pdu.toDocument)]

def Requester.toDocument (who : Requester) : Document :=
  .record [("peer", .text who.peer.text), ("version", .text who.version.name), ("model", who.model.toDocument),
    ("name", who.securityName.toDocument), ("level", who.level.toDocument), ("engine", who.engine.toDocument),
    ("context", who.context.toDocument), ("id", .integer who.requestId.toInt), ("type", .text who.kind.name),
    ("view", .ofOption Octets.toDocument who.view)]

/-- Writes an item; `name` tells the objects apart. -/
def Item.toDocument (name : ObjectId → String) (i : Item) : Document :=
  .record [("i", .natural i.index), ("oid", i.oid.toDocument), ("value", i.value.toDocument),
    ("scope", i.region.toDocument), ("error", .text i.status.name), ("complete", .bool i.complete),
    ("deferred", .bool i.deferred), ("prepared", .bool i.prepared), ("undo", .ofOption Value.toDocument i.undoValue),
    ("target", .ofOption (fun id => .text (name id)) i.target)]

end Responder
