import Responder.Oid.Basic

/-! Sizes of encoded data elements: how many octets a tag, a length and a content take under the
    basic encoding rules, with every length in its shortest definite form. -/

namespace Responder.Ber

/-- Octets of the length field in front of `content` octets. -/
def lengthSize (content : Nat) : Nat :=
  if content ≤ 0x7F then 1
  else if content ≤ 0xFF then 2
  else if content ≤ 0xFFFF then 3
  else if content ≤ 0xFFFFFF then 4
  else 5

/-- Octets of a whole element with `content` octets inside: one for the tag, the length, the content. -/
def elementSize (content : Nat) : Nat := 1 + lengthSize content + content

/-- Octets of a signed integer in the shortest two's complement form. -/
def integerSize (n : Int32) : Nat :=
  let v := n.toInt
  if -0x80 ≤ v ∧ v < 0x80 then 1
  else if -0x8000 ≤ v ∧ v < 0x8000 then 2
  else if -0x800000 ≤ v ∧ v < 0x800000 then 3
  else 4

/-- Octets of an unsigned integer: its bits and a zero bit for the sign. -/
def unsignedSize (n : Nat) : Nat := (n.log2 + 9) / 8

/-- Octets of one subidentifier, seven bits to each. -/
def subidentifierSize (n : Nat) : Nat := n.log2 / 7 + 1

/-- The first two arcs share a subidentifier, which stops at the greatest arc. -/
def leadingArcs (first second : UInt32) : Nat :=
  min (min (40 * first.toNat) Oid.maxArc.toNat + second.toNat) Oid.maxArc.toNat

def oidSize (o : Oid) : Nat :=
  match o.arcs with
  | [] => 0
  | [first] => subidentifierSize (leadingArcs first 0)
  | first :: second :: rest =>
    subidentifierSize (leadingArcs first second) + rest.foldr (fun arc n => subidentifierSize arc.toNat + n) 0

end Responder.Ber
