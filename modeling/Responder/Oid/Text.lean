import Responder.Oid.Basic
import Responder.Text.Decimal
import Responder.Text.Split

/-! Object identifiers as text: decimal arcs with dots between them. Reading is more liberal than
    writing, as empty components are skipped and an arc may carry a plus sign. -/

namespace Responder

/-- Why a text is not an object identifier. -/
inductive OidError where
  /-- A component of `input` is not an arc. -/
  | invalidArc (input : String)
  /-- Every component is an arc, but there are too many of them. -/
  | tooManyArcs (count : Nat)
deriving DecidableEq

def OidError.reason : OidError → String
  | .invalidArc _ => "invalid arc value"
  | .tooManyArcs count =>
    "OID has " ++ Decimal.text count ++ " arcs, exceeds maximum " ++ Decimal.text Oid.maxArcs

namespace Oid

/-- A component without its plus sign, if it has one. -/
def unsigned : List Char → List Char
  | '+' :: rest => rest
  | cs => cs

/-- The arc that a component stands for: digits, with a plus sign at most before them, that are
    worth no more than the greatest arc. -/
def readArc? (cs : List Char) : Option UInt32 :=
  let ds := unsigned cs
  if ds ≠ [] ∧ ds.all Decimal.isDigit ∧ Decimal.value ds ≤ maxArc.toNat
  then some (UInt32.ofNat (Decimal.value ds)) else none

/-- Refuses an identifier that is too long for the wire. -/
def checkLength (o : Oid) : Except OidError Oid :=
  if o.isShort then .ok o else .error (.tooManyArcs o.size)

def parse (s : String) : Except OidError Oid :=
  match ((Text.split '.' s.toList).filter (· ≠ [])).mapM readArc? with
  | none => .error (.invalidArc s)
  | some arcs => checkLength ⟨arcs⟩

/-- Writes an identifier: the arcs in decimal, a dot between each two. -/
def text (o : Oid) : String :=
  ".".intercalate (o.arcs.map fun arc => Decimal.text arc.toNat)

end Oid

end Responder
