import Responder.Community
import Responder.Proxy
import Responder.Settings
import Responder.Written.Document
import Responder.Vacm.Tables

/-! The written form of settings, mappings, view purposes and request classes. Unknown members are
    skipped, except in a length of time. -/

namespace Responder

/-- The greatest number that a written form may hold. -/
def Document.maxNatural : Nat := 18446744073709551615

namespace Duration

/-- Reads a length of time: full seconds and the nanoseconds beyond, both required. -/
def ofDocument? (d : Document) : Option Duration :=
  let known := match d with
    | .record fields => fields.all fun field => field.1 == "secs" || field.1 == "nanos"
    | _ => true
  if !known then none
  else match d.members? ["secs", "nanos"] with
    | some [some secs, some nanos] =>
      (secs.natural? Document.maxNatural).bind fun secs =>
      (nanos.natural? 4294967295).bind fun nanos =>
      if secs + nanos / 1000000000 ≤ Document.maxNatural then some ⟨secs * 1000000000 + nanos⟩ else none
    | _ => none

def toDocument (d : Duration) : Document :=
  .record [("secs", .natural (d.nanoseconds / 1000000000)), ("nanos", .natural (d.nanoseconds % 1000000000))]

end Duration

namespace Settings

/-- What a member stands for; a missing one stands for its default. -/
def member? {α : Type} (decode : Document → Option α) (missing : α) : Option Document → Option α
  | none => some missing
  | some d => decode d

/-- Reads settings. Members that are missing have their default value. -/
def ofDocument? (d : Document) : Option Settings :=
  let defaults : Settings := {}
  match d.members? ["request_timeout", "lock_timeout", "max_concurrent_requests", "forward_instrumentation_errors",
      "own_context_engine_ids"] with
  | some [request, lock, limit, forward, engines] =>
    (member? Duration.ofDocument? defaults.requestTimeout request).bind fun requestTimeout =>
    (member? Duration.ofDocument? defaults.lockTimeout lock).bind fun lockTimeout =>
    (member? (·.natural? Document.maxNatural) defaults.maxConcurrent limit).bind fun maxConcurrent =>
    (member? Document.bool? defaults.forwardFaults forward).bind fun forwardFaults =>
    (member? (fun d => d.items?.bind (·.mapM Document.octets?)) defaults.ownEngines engines).bind fun ownEngines =>
    some { requestTimeout, lockTimeout, maxConcurrent, forwardFaults, ownEngines }
  | _ => none

def toDocument (s : Settings) : Document :=
  .record [("request_timeout", s.requestTimeout.toDocument), ("lock_timeout", s.lockTimeout.toDocument),
    ("max_concurrent_requests", .natural s.maxConcurrent), ("forward_instrumentation_errors", .bool s.forwardFaults),
    ("own_context_engine_ids", .list (s.ownEngines.map .ofOctets))]

end Settings

namespace Mapping

/-- What an optional member stands for; in a record it may be missing. -/
def optionalMember? {α : Type} (decode : Document → Option α) (inRecord : Bool) :
    Option Document → Option (Option α)
  | none => if inRecord then some none else none
  | some d => d.optional? decode

def ofDocument? (d : Document) : Option Mapping :=
  let inRecord := match d with
    | .record _ => true
    | _ => false
  match d.members? ["security_name", "context_engine_id", "context_name", "max_message_size", "transport_tag"] with
  | some [some name, some engine, some context, size, tag] =>
    name.octets?.bind fun securityName =>
    engine.octets?.bind fun engine =>
    context.octets?.bind fun context =>
    (optionalMember? (·.natural? Document.maxNatural) inRecord size).bind fun maxSize =>
    (optionalMember? Document.octets? inRecord tag).bind fun tag =>
    some { securityName, engine, context, maxSize, tag }
  | _ => none

def toDocument (m : Mapping) : Document :=
  .record [("security_name", .ofOctets m.securityName), ("context_engine_id", .ofOctets m.engine),
    ("context_name", .ofOctets m.context), ("max_message_size", .ofOption .natural m.maxSize),
    ("transport_tag", .ofOption .ofOctets m.tag)]

end Mapping

namespace Vacm.Purpose

def ofDocument? : Document → Option Purpose := Document.variant? ofName?

def toDocument (p : Purpose) : Document := .text p.name

end Vacm.Purpose

namespace Proxy.Class

def ofDocument? : Document → Option Class := Document.variant? ofName?

def toDocument (c : Class) : Document := .text c.name

end Proxy.Class

end Responder
