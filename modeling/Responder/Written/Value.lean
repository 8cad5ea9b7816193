import Responder.Pdu
import Responder.Region.Basic
import Responder.Text.Hexadecimal
import Responder.Written.Document

/-! Values, bindings, data units and regions as documents. A value is a list of a word for its type
    and its content, a binding a list of a variable and a value. Octets are written in hexadecimal
    digits, and read from a text, from digits, or from a text and how often it is repeated. -/

namespace Responder

/-- Why a document cannot be read. -/
inductive Misreading where
  /-- It does not have the form that is expected. -/
  | malformed
  | identifier (cause : OidError)

/-- The result of reading a document. -/
abbrev Reading := Except Misreading

/-! ### Octets and identifiers -/

namespace Octets

/-- Reads octets; what is missing is empty. -/
def ofDocument : Document → Octets
  | .text s => ofText s
  | d =>
    if d.has "hex" then (Hexadecimal.read? (d.textOf "hex").toList).getD []
    else (List.replicate (d.naturalOf "n" 0) (ofText (d.textOf "rep"))).flatten

def toDocument (octets : Octets) : Document := .text (Hexadecimal.text octets)

end Octets

namespace Document

def octetsOf (d : Document) (name : String) : Octets := .ofDocument (d.member name)

/-- The octets that a record has under a name, if it has any. -/
def octetsOf? (d : Document) (name : String) : Option Octets := d.member? name .ofDocument

end Document

namespace Oid

/-- Reads an identifier: its text, or a list of arcs, which may be of any length. -/
def ofDocument : Document → Reading Oid
  | .text s => (parse s).mapError .identifier
  | .list arcs => .ok ⟨arcs.map Document.uint32⟩
  | _ => .error .malformed

def toDocument (o : Oid) : Document := .text o.text

end Oid

namespace Document

def oidOf (d : Document) (name : String) : Reading Oid := Oid.ofDocument (d.member name)

def oidsOf (d : Document) (name : String) : Reading (List Oid) := (d.itemsOf name).mapM Oid.ofDocument

end Document

/-! ### Values and bindings -/

namespace Value

def ofDocument (d : Document) : Reading Value :=
  match d.items with
  | .text "int" :: n :: _ => .ok (integer n.int32)
  | .text "str" :: octets :: _ => .ok (octetString (.ofDocument octets))
  | .text "null" :: _ => .ok null
  | .text "oid" :: o :: _ => (Oid.ofDocument o).map oid
  | .text "ip" :: .list [a, b, c, d] :: _ => .ok (ipAddress a.uint8 b.uint8 c.uint8 d.uint8)
  | .text "c32" :: n :: _ => .ok (counter32 n.uint32)
  | .text "g32" :: n :: _ => .ok (gauge32 n.uint32)
  | .text "tt" :: n :: _ => .ok (timeTicks n.uint32)
  | .text "opaque" :: octets :: _ => .ok (opaqueData (.ofDocument octets))
  | .text "c64" :: n :: _ => .ok (counter64 n.uint64)
  | .text "nso" :: _ => .ok noSuchObject
  | .text "nsi" :: _ => .ok noSuchInstance
  | .text "eomv" :: _ => .ok endOfMibView
  | _ => .error .malformed

/-- Writes a value. A number of 64 bits is written as a text. -/
def toDocument : Value → Document
  | integer n => .list [.text "int", .integer n.toInt]
  | octetString octets => .list [.text "str", octets.toDocument]
  | null => .list [.text "null"]
  | oid o => .list [.text "oid", o.toDocument]
  | ipAddress a b c d => .list [.text "ip", .ofOctets [a, b, c, d]]
  | counter32 n => .list [.text "c32", .natural n.toNat]
  | gauge32 n => .list [.text "g32", .natural n.toNat]
  | timeTicks n => .list [.text "tt", .natural n.toNat]
  | opaqueData octets => .list [.text "opaque", octets.toDocument]
  | counter64 n => .list [.text "c64", .text (Decimal.text n.toNat)]
  | noSuchObject => .list [.text "nso"]
  | noSuchInstance => .list [.text "nsi"]
  | endOfMibView => .list [.text "eomv"]

end Value

namespace Binding

/-- Reads a binding; one without a value is unset. -/
def ofDocument (d : Document) : Reading Binding :=
  match d.items with
  | [o] => (Oid.ofDocument o).map unset
  | o :: v :: _ => do return ⟨← Oid.ofDocument o, ← Value.ofDocument v⟩
  | [] => .error .malformed

def toDocument (b : Binding) : Document := .list [b.oid.toDocument, b.value.toDocument]

end Binding

def Document.bindingsOf (d : Document) (name : String) : Reading (List Binding) :=
  (d.itemsOf name).mapM Binding.ofDocument

/-! ### Statuses and data units -/

namespace Status

def ofDocument (d : Document) : Status := ofCode d.int32

def toDocument (s : Status) : Document := .integer s.code.toInt

end Status

namespace Pdu

/-- Reads a data unit: a request under the name of what it does, or any data unit with its kind. -/
def ofDocument (d : Document) : Reading Pdu := do
  let id := (d.member "id").int32
  if d.has "get" then return asking .get id (← d.oidsOf "get")
  else if d.has "next" then return asking .getNext id (← d.oidsOf "next")
  else if d.has "set" then return setting id (← d.bindingsOf "set")
  else if d.has "bulk" then return askingBulk id (d.member "nr").int32 (d.member "mr").int32 (← d.oidsOf "bulk")
  else match Kind.ofName? (d.textOf "type") with
    | some kind => return ⟨kind, id, (d.member "status").int32, (d.member "index").int32, ← d.bindingsOf "vbs"⟩
    | none => throw .malformed

def toDocument (p : Pdu) : Document :=
  .record [("type", .text p.kind.name), ("id", .integer p.requestId.toInt), ("status", .integer p.errorStatus.toInt),
    ("index", .integer p.errorIndex.toInt), ("vbs", .list (p.bindings.map Binding.toDocument))]

end Pdu

/-! ### Regions -/

namespace Region

/-- Reads the range of a region: a point, what is above one, a subtree, or both ends. Of two ends that cannot
be read the upper one is reported. -/
def rangeOfDocument (d : Document) : Reading Range := do
  if d.has "point" then return .point (← d.oidOf "point")
  else if d.has "after" then return .after (← d.oidOf "after")
  else if d.has "subtree" then return .subtree (← d.oidOf "subtree")
  else
    let upper ← (d.member? "hi" Oid.ofDocument).sequence
    return ⟨← d.oidOf "lo", d.flag "li", upper, d.flag "ui"⟩

/-- Reads a region: a range, and a context if it is not in all of them. -/
def ofDocument (d : Document) : Reading Region := do return ⟨← rangeOfDocument d, d.octetsOf? "ctx"⟩

/-- Writes a region: its text, and its context. -/
def toDocument (r : Region) : Document := .list [.text r.text, .ofOption Octets.toDocument r.context]

end Region

def Document.regionOf (d : Document) (name : String) : Reading Region := Region.ofDocument (d.member name)

end Responder
