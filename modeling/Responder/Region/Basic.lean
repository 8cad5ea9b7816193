import Responder.Region.Range
import Responder.Text.Octets

/-! Regions: ranges of object identifiers in a context. A region without a context belongs to every
    context. `Region.order` sorts regions by where they end, so that a walk through sorted regions
    meets what it looks for in ascending order. -/

namespace Responder

/-- The name of a context. The empty name is that of the default context. -/
abbrev ContextName := Octets

/-- A range in a context, or in every context. -/
structure Region extends Range where
  context : Option ContextName
deriving DecidableEq, Inhabited

namespace Region

def everywhere (r : Range) : Region := ⟨r, none⟩

def point (o : Oid) : Region := everywhere (.point o)

/-- Everything above an identifier, in every context. -/
def after (o : Oid) : Region := everywhere (.after o)

def subtree (root : Oid) : Region := everywhere (.subtree root)

def inContext (r : Region) (context : Option ContextName) : Region := { r with context }

/-- What is left of a region above a range. -/
def above (r : Region) (other : Range) : Region := ⟨r.toRange.above other, r.context⟩

/-- Narrows a region to what is left of it above a range, and says whether that is anything. -/
def narrow (r : Region) (other : Range) : Bool × Region :=
  let left := r.above other
  (other.upper.isSome && !left.isEmpty, left)

/-- The region with its lower end moved just past an identifier. -/
def past (r : Region) (o : Oid) : Region := ⟨r.toRange.past o, r.context⟩

/-- Whether two contexts can see each other: they are equal, or one of them stands for all. -/
def contextsMatch : Option ContextName → Option ContextName → Bool
  | some a, some b => a == b
  | _, _ => true

/-- Whether two regions share an identifier in some context. -/
def overlaps (a b : Region) : Bool := contextsMatch a.context b.context && a.toRange.meets b.toRange

/-- Ends in ascending order, a missing end last. -/
def compareUpper : Option Oid → Option Oid → Ordering
  | some a, some b => compare a b
  | some _, none => .lt
  | none, some _ => .gt
  | none, none => .eq

/-- The order of regions: by upper end, an excluded end first; then by lower end, an included end
    first; then by context. -/
def order (a b : Region) : Ordering :=
  (compareUpper a.upper b.upper).then <|
  (compare a.upperIncluded b.upperIncluded).then <|
  (compare a.lower b.lower).then <|
  (compare b.lowerIncluded a.lowerIncluded).then <|
  compare a.context b.context

/-- The least region that may reach `o`: whatever sorts before it ends below `o`. -/
def reaching (o : Oid) : Region := ⟨⟨.empty, true, some o, false⟩, none⟩

/-- The region for the eye: its context, if it has one, and its range. -/
def text (r : Region) : String :=
  (r.context.map fun c => c.textLossy ++ "@").getD "" ++ r.toRange.text

end Region

end Responder
