import Responder.Oid.Basic
import Responder.Text.Octets

/-! Views: families of subtrees that are included or excluded. Of the subtrees that match an
    identifier the longest decides, of equally long ones the greatest, of equal ones the last. -/

namespace Responder.Vacm

/-- A subtree of a view. -/
structure Subtree where
  root : Oid
  /-- One bit for each arc of the root, the most significant first. A zero bit lets the arc differ; arcs
  beyond the mask may not differ. -/
  mask : Octets
  included : Bool
deriving DecidableEq, Inhabited

namespace Subtree

/-- Whether the arc at a position of the root has to agree. -/
def isFixed (mask : Octets) (position : Nat) : Bool :=
  match mask[position / 8]? with
  | none => true
  | some octet => octet.toNat.testBit (7 - position % 8)

/-- Whether the arcs agree with the root's from a position on wherever they have to. -/
def agree (mask : Octets) : Nat → List UInt32 → List UInt32 → Bool
  | _, [], _ => true
  | _, _ :: _, [] => false
  | position, expected :: root, actual :: arcs =>
    (!isFixed mask position || expected == actual) && agree mask (position + 1) root arcs

/-- Whether an identifier lies under the root, up to the arcs that may differ. -/
def covers (s : Subtree) (o : Oid) : Bool := agree s.mask 0 s.root.arcs o.arcs

/-- The order in which subtrees decide: the longer later, of equally long ones the greater. -/
def order (a b : Subtree) : Ordering := (compare a.root.size b.root.size).then (compare a.root b.root)

end Subtree

/-- The last of the greatest elements of a list. -/
def lastGreatest? {α : Type} (order : α → α → Ordering) (xs : List α) : Option α :=
  xs.foldl (fun best x =>
    match best with
    | none => some x
    | some best => if order best x == .gt then some best else some x) none

/-- A named set of identifiers. -/
structure View where
  family : List Subtree
deriving DecidableEq, Inhabited

def View.contains (v : View) (o : Oid) : Bool :=
  match lastGreatest? Subtree.order (v.family.filter fun s => s.covers o) with
  | some s => s.included
  | none => false

end Responder.Vacm
