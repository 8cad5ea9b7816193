import Responder.Text.Octets

/-! Documents: nested data as it stands in files. A strict reader takes a document apart and yields
    nothing when the document does not have the form that it expects; a lenient one takes what is
    missing for empty. Integers are told apart from decimals by how they are written, not by what they
    are worth. -/

namespace Responder

/-- Nested data. -/
inductive Document where
  | null
  | bool (b : Bool)
  | integer (n : Int)
  /-- The number `digits * 10 ^ exponent` or its negative, in any other form: with a fraction or an
  exponent, beyond 64 bits, or as a negative zero. -/
  | decimal (negative : Bool) (digits : Nat) (exponent : Int)
  | text (s : String)
  | list (items : List Document)
  | record (fields : List (String × Document))
deriving Inhabited

namespace Document

/-! ### Writing -/

def natural (n : Nat) : Document := integer n

def ofOctets (octets : Octets) : Document := list (octets.map fun b => natural b.toNat)

/-- Fields in ascending order of their names, one more field put among them unless its name is there. -/
def putField (field : String × Document) : List (String × Document) → List (String × Document)
  | [] => [field]
  | first :: rest =>
    match compare field.1 first.1 with
    | .lt => field :: first :: rest
    | .eq => first :: rest
    | .gt => first :: putField field rest

/-- The record with these fields, in ascending order; of two with one name the later counts. -/
def ofFields (fields : List (String × Document)) : Document := record (fields.foldr putField [])

/-- Something optional as a document. -/
def ofOption {α : Type} (encode : α → Document) : Option α → Document
  | none => null
  | some a => encode a

/-! ### Strict reading -/

def bool? : Document → Option Bool
  | bool b => some b
  | _ => none

/-- The natural number that a document is, if it is not above a limit. A decimal is none, even one
without a fraction. -/
def natural? (limit : Nat) : Document → Option Nat
  | integer n => if 0 ≤ n ∧ n ≤ limit then some n.toNat else none
  | _ => none

def items? : Document → Option (List Document)
  | list items => some items
  | _ => none

/-- The octets that a document stands for: a list of numbers, or a text in UTF-8. -/
def octets? : Document → Option Octets
  | list items => items.mapM fun item => (item.natural? 255).map UInt8.ofNat
  | text s => some (Octets.ofText s)
  | _ => none

/-- What a document stands for where nothing may stand too. -/
def optional? {α : Type} (decode : Document → Option α) : Document → Option (Option α)
  | null => some none
  | d => (decode d).map some

/-- The variant that a document names: by its name, or by a record of that name with nothing in it. -/
def variant? {α : Type} (ofName? : String → Option α) : Document → Option α
  | text s => ofName? s
  | record [(s, null)] => ofName? s
  | _ => none

/-- The members of a structure with these names: a record has them by name, a list in their order. A list
may be shorter than the names. -/
def members? (names : List String) : Document → Option (List (Option Document))
  | record fields => some (names.map fun name => fields.lookup name)
  | list items =>
    if items.length ≤ names.length
    then some (items.map some ++ List.replicate (names.length - items.length) none) else none
  | _ => none

/-! ### Lenient reading -/

def isNull : Document → Bool
  | null => true
  | _ => false

def member (d : Document) (name : String) : Document :=
  match d with
  | record fields => (fields.lookup name).getD null
  | _ => null

def has (d : Document) (name : String) : Bool := !(d.member name).isNull

/-- The member of a record with a name, decoded if it is there. -/
def member? {α : Type} (d : Document) (name : String) (decode : Document → α) : Option α :=
  if d.has name then some (decode (d.member name)) else none

def items : Document → List Document
  | list items => items
  | _ => []

def fields : Document → List (String × Document)
  | record fields => fields
  | _ => []

def itemsOf (d : Document) (name : String) : List Document := (d.member name).items

/-- The text that a document is, or another one. -/
def textOr (missing : String) : Document → String
  | text s => s
  | _ => missing

def textOf (d : Document) (name : String) : String := (d.member name).textOr ""

/-- Whether a record says yes under a name. -/
def flag (d : Document) (name : String) : Bool := (d.member name).bool?.getD false

/-- The integer that a document is, as a number or in digits, or another one. -/
def integerOr (missing : Int) : Document → Int
  | integer n => n
  | text s => s.toInt?.getD missing
  | _ => missing

/-- The natural number that a document is, or another one. -/
def naturalOr (missing : Nat) (d : Document) : Nat := (d.integerOr missing).toNat

/-- The number that a record has under a name, or another one. -/
def naturalOf (d : Document) (name : String) (missing : Nat) : Nat := (d.member name).naturalOr missing

def int32 (d : Document) : Int32 := Int32.ofInt (d.integerOr 0)

def uint8 (d : Document) : UInt8 := UInt8.ofNat (d.naturalOr 0)

def uint32 (d : Document) : UInt32 := UInt32.ofNat (d.naturalOr 0)

def uint64 (d : Document) : UInt64 := UInt64.ofNat (d.naturalOr 0)

end Document

end Responder
