import Responder.Text.Decimal
import Responder.Text.Hexadecimal
import Responder.Text.Split

/-! Network addresses: what they are as numbers, and their usual text. The long kind is written with
    its longest run of zero groups left out. -/

namespace Responder

/-- The address of a host. -/
inductive HostAddress where
  | v4 (a b c d : UInt8)
  /-- Eight groups of sixteen bits. -/
  | v6 (groups : List UInt16)
deriving DecidableEq

/-- The address that a message comes from. -/
structure Endpoint where
  host : HostAddress
  port : UInt16
  /-- The interface that a link-local address belongs to, or zero. -/
  zone : UInt32
deriving DecidableEq

namespace Address

/-- A number in decimal digits that is not above `limit`. -/
def decimal? (limit : Nat) (cs : List Char) : Option Nat :=
  if cs ≠ [] ∧ cs.all Decimal.isDigit ∧ Decimal.value cs ≤ limit then some (Decimal.value cs) else none

/-- A group of one to four hexadecimal digits. -/
def group? (cs : List Char) : Option UInt16 :=
  if cs = [] ∨ 4 < cs.length then none
  else (cs.mapM Hexadecimal.worth?).map fun ds => UInt16.ofNat (ds.foldl (fun n d => 16 * n + d) 0)

/-- An octet of a dotted address: no zeros in front. -/
def octet? (cs : List Char) : Option UInt8 :=
  if 1 < cs.length ∧ cs.head? = some '0' then none else (decimal? 255 cs).map UInt8.ofNat

/-- Four octets with dots between them. -/
def dotted? (cs : List Char) : Option (UInt8 × UInt8 × UInt8 × UInt8) :=
  match (Text.split '.' cs).mapM octet? with
  | some [a, b, c, d] => some (a, b, c, d)
  | _ => none

/-- Groups with colons between them, as they may stand before a double colon. -/
def plainGroups? (cs : List Char) : Option (List UInt16) :=
  if cs = [] then some [] else (Text.split ':' cs).mapM group?

/-- Groups with colons between them, up to the end of an address, where a dotted address may stand for the
last two. -/
def groups? (cs : List Char) : Option (List UInt16) :=
  if cs = [] then some []
  else
    let pieces := Text.split ':' cs
    match dotted? (pieces.getLastD []) with
    | some (a, b, c, d) =>
      (pieces.dropLast.mapM group?).map fun front =>
        front ++ [UInt16.ofNat (256 * a.toNat + b.toNat), UInt16.ofNat (256 * c.toNat + d.toNat)]
    | none => pieces.mapM group?

/-- What stands before and behind the first double colon, if there is one. -/
def cutAtGap : List Char → Option (List Char × List Char)
  | ':' :: ':' :: rest => some ([], rest)
  | c :: rest => (cutAtGap rest).map fun (front, back) => (c :: front, back)
  | [] => none

/-- The eight groups of a long address. -/
def longGroups? (cs : List Char) : Option (List UInt16) :=
  match cutAtGap cs with
  | none => (groups? cs).filter (·.length = 8)
  | some (front, back) =>
    match plainGroups? front, groups? back with
    | some front, some back =>
      if front.length + back.length ≤ 7
      then some (front ++ List.replicate (8 - front.length - back.length) 0 ++ back) else none
    | _, _ => none

def readHost? (s : String) : Option HostAddress :=
  match dotted? s.toList with
  | some (a, b, c, d) => some (.v4 a b c d)
  | none => (longGroups? s.toList).map .v6

/-- What stands before and behind the last occurrence of a character. -/
def cutAtLast (separator : Char) (cs : List Char) : Option (List Char × List Char) :=
  if separator ∈ cs then
    let back := cs.reverse.takeWhile (· ≠ separator)
    some ((cs.reverse.drop (back.length + 1)).reverse, back.reverse)
  else none

/-- Reads the address that a message comes from: a host and a port, a long host in brackets. -/
def readEndpoint? (s : String) : Option Endpoint :=
  match cutAtLast ':' s.toList with
  | none => none
  | some (host, port) =>
    match decimal? 65535 port with
    | none => none
    | some port =>
      match host with
      | '[' :: inner =>
        if inner.getLast? = some ']' then
          let inner := inner.dropLast
          let (long, zone) := match cutAtLast '%' inner with
            | some (long, zone) => (long, decimal? 4294967295 zone)
            | none => (inner, some 0)
          match longGroups? long, zone with
          | some groups, some zone => some ⟨.v6 groups, UInt16.ofNat port, UInt32.ofNat zone⟩
          | _, _ => none
        else none
      | _ => (dotted? host).map fun (a, b, c, d) => ⟨.v4 a b c d, UInt16.ofNat port, 0⟩

/-- A group in hexadecimal digits, without leading zeros. -/
def groupText (group : UInt16) : String :=
  let n := group.toNat
  let ds := [n / 4096, n / 256 % 16, n / 16 % 16, n % 16]
  String.ofList (((ds.take 3).dropWhile (· = 0) ++ ds.drop 3).map Hexadecimal.digit)

/-- Groups with colons between them. -/
def groupsText (groups : List UInt16) : String := ":".intercalate (groups.map groupText)

/-- How many groups are zero from the front on. -/
def zeros (groups : List UInt16) : Nat := (groups.takeWhile (· = 0)).length

/-- Where the longest run of zero groups starts and how long it is; of two, the first. -/
def longestGap (groups : List UInt16) : Nat × Nat :=
  (List.range groups.length).foldl
    (fun best i => if best.2 < zeros (groups.drop i) then (i, zeros (groups.drop i)) else best) (0, 0)

/-- Four octets with dots between them. -/
def dottedText (a b c d : UInt8) : String :=
  ".".intercalate ([a, b, c, d].map fun n => Decimal.text n.toNat)

/-- The upper and the lower octet of a group. -/
def octets (group : UInt16) : UInt8 × UInt8 := (UInt8.ofNat (group.toNat / 256), UInt8.ofNat (group.toNat % 256))

/-- The text of a long address. One that stands for a short address shows it. -/
def longText (groups : List UInt16) : String :=
  match groups with
  | [0, 0, 0, 0, 0, 0xFFFF, high, low] =>
    let (a, b) := octets high
    let (c, d) := octets low
    "::ffff:" ++ dottedText a b c d
  | _ =>
    let (start, length) := longestGap groups
    if 1 < length then groupsText (groups.take start) ++ "::" ++ groupsText (groups.drop (start + length))
    else groupsText groups

end Address

def Endpoint.text (e : Endpoint) : String :=
  match e.host with
  | .v4 a b c d => Address.dottedText a b c d ++ ":" ++ Decimal.text e.port.toNat
  | .v6 groups =>
    "[" ++ Address.longText groups ++ (if e.zone = 0 then "" else "%" ++ Decimal.text e.zone.toNat) ++ "]:" ++
      Decimal.text e.port.toNat

end Responder
