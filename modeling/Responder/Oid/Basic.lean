/-! Object identifiers: paths of 32-bit arcs. They are ordered arc by arc, a path before the paths
    that extend it, so the identifiers under a root form one unbroken run of the order. -/

namespace Responder

/-- An object identifier. Every path of arcs counts as one, the empty path included. -/
structure Oid where
  arcs : List UInt32
deriving DecidableEq, Inhabited

namespace Oid

instance : Ord Oid := ⟨fun a b => compare a.arcs b.arcs⟩

def maxArc : UInt32 := 4294967295

/-- The most arcs an identifier on the wire may have. -/
def maxArcs : Nat := 128

/-- The empty path, below every other. -/
def empty : Oid := ⟨[]⟩

def size (o : Oid) : Nat := o.arcs.length

def isEmpty (o : Oid) : Bool := o.arcs.isEmpty

/-- Whether the identifier is `root` or extends it. -/
def isUnder (o root : Oid) : Bool := root.arcs.isPrefixOf o.arcs

/-- The identifier without its last arc; the empty one has no parent. -/
def parent? (o : Oid) : Option Oid :=
  if o.arcs.isEmpty then none else some ⟨o.arcs.dropLast⟩

def child (o : Oid) (arc : UInt32) : Oid := ⟨o.arcs ++ [arc]⟩

/-- The least identifier above this one: nothing lies between a path and its child `0`. -/
def successor (o : Oid) : Oid := o.child 0

/-- Raises the last arc that can still be raised and drops what stands behind it. -/
def raise : List UInt32 → Option (List UInt32)
  | [] => none
  | arc :: rest =>
    match raise rest with
    | some rest => some (arc :: rest)
    | none => if arc < maxArc then some [arc + 1] else none

/-- The least identifier above everything under this one, if there is any. -/
def nextPeer? (o : Oid) : Option Oid := (raise o.arcs).map Oid.mk

/-- Whether the identifier is short enough for the wire. -/
def isShort (o : Oid) : Bool := o.size ≤ maxArcs

instance : Std.TransOrd Oid where
  eq_swap {a b} := Std.OrientedCmp.eq_swap (a := a.arcs) (b := b.arcs)
  isLE_trans {a b c} := Std.TransCmp.isLE_trans (a := a.arcs) (b := b.arcs) (c := c.arcs)

instance : Std.LawfulEqOrd Oid where
  compare_self {a} := Std.ReflCmp.compare_self (a := a.arcs)
  eq_of_compare {a b} h := by
    cases a; cases b
    exact congrArg Oid.mk (Std.LawfulEqOrd.eq_of_compare h)

theorem isUnder_iff {o root : Oid} : o.isUnder root ↔ root.arcs <+: o.arcs := by simp [isUnder]

@[simp] theorem isUnder_self (o : Oid) : o.isUnder o := by simp [isUnder]

@[simp] theorem isUnder_empty (o : Oid) : o.isUnder empty := by simp [isUnder, empty]

@[simp] theorem isUnder_child (o : Oid) (arc : UInt32) : (o.child arc).isUnder o := by simp [isUnder, child]

@[simp] theorem size_child (o : Oid) (arc : UInt32) : (o.child arc).size = o.size + 1 := by simp [child, size]

@[simp] theorem parent?_child (o : Oid) (arc : UInt32) : (o.child arc).parent? = some o := by simp [child, parent?]

end Oid

end Responder
