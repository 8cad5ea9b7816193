import Responder.Community
import Responder.Region.Priority
import Responder.Vacm.Tables
import Responder.Written.Value

/-! The tables of an agent as documents: groups, access rows and views, communities with their hosts,
    and priorities. -/

namespace Responder

namespace SecurityModel

def ofDocument (d : Document) : SecurityModel :=
  match d.naturalOr 0 with
  | 1 => v1
  | 2 => v2c
  | 3 => usm
  | _ => any

def toDocument (m : SecurityModel) : Document := .natural m.number

end SecurityModel

namespace SecurityLevel

/-- Reads a level from its name; without one there is no security. -/
def ofDocument : Document → SecurityLevel
  | .text "authNoPriv" => authNoPriv
  | .text "authPriv" => authPriv
  | _ => noAuthNoPriv

def toDocument (l : SecurityLevel) : Document := .text l.name

end SecurityLevel

/-! ### Access control -/

namespace Vacm

/-- Reads what a view is used for. -/
def Purpose.ofWord : Document → Purpose
  | .text "write" => write
  | .text "notify" => notify
  | _ => read

def AccessRow.ofDocument (d : Document) : AccessRow where
  group := d.octetsOf "group"
  context := d.octetsOf "prefix"
  contextMatch := if d.flag "match_prefix" then .start else .exact
  model := .ofDocument (d.member "model")
  level := .ofDocument (d.member "level")
  readView := d.octetsOf "read"
  writeView := d.octetsOf "write"
  notifyView := d.octetsOf "notify"

def AccessRow.toDocument (row : AccessRow) : Document :=
  .record [("group", row.group.toDocument), ("prefix", row.context.toDocument), ("model", row.model.toDocument),
    ("level", row.level.toDocument), ("read", row.readView.toDocument), ("write", row.writeView.toDocument),
    ("notify", row.notifyView.toDocument)]

def Subtree.ofDocument (d : Document) : Reading Subtree := do
  return ⟨← d.oidOf "oid", d.octetsOf "mask", d.flag "include"⟩

def Tables.ofDocument (d : Document) : Reading Tables := do
  let views ← (d.itemsOf "views").mapM fun v => do
    return (v.octetsOf "name", View.mk (← (v.itemsOf "family").mapM Subtree.ofDocument))
  return {
    groups := (d.itemsOf "groups").map fun g =>
      ((.ofDocument (g.member "model"), g.octetsOf "name"), g.octetsOf "group")
    rows := (d.itemsOf "access").map AccessRow.ofDocument
    views }

end Vacm

/-! ### Communities -/

def HostAddress.ofDocument (d : Document) : Reading HostAddress :=
  match Address.readHost? (d.textOr "") with
  | some host => .ok host
  | none => .error .malformed

/-- Reads what a community stands for. -/
def Mapping.ofEntry (d : Document) : Mapping where
  securityName := d.octetsOf "name"
  engine := d.octetsOf "engine"
  context := d.octetsOf "context"
  maxSize := d.member? "max_size" (·.naturalOr 0)
  tag := d.octetsOf? "tag"

def Communities.ofDocument (d : Document) : Reading Communities := do
  let hosts ← (d.itemsOf "tags").mapM fun t =>
    match t.items with
    | [tag, hosts] => do return (.ofDocument tag, ← hosts.items.mapM HostAddress.ofDocument)
    | _ => .error .malformed
  return { entries := (d.itemsOf "entries").map fun e => (e.octetsOf "community", .ofEntry e), hosts }

/-! ### Priorities -/

/-- Reads priorities: a list of roots, each with its number. -/
def Priorities.ofDocument (d : Document) : Reading Priorities :=
  d.items.foldlM (fun p entry =>
    match entry.items with
    | [root, rank] => do return p.assign (← Oid.ofDocument root) rank.int32
    | _ => .error .malformed) .empty

end Responder
