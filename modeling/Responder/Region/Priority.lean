import Responder.OidMap
import Responder.Region.Basic

/-! Priorities of regions: roots with a number each. A region has the priority of the longest root
    above its lower end; regions with a priority come before those without. -/

namespace Responder

/-- Roots and their priorities. -/
structure Priorities where
  ranks : OidMap Int32
deriving Inhabited

namespace Priorities

def empty : Priorities := ⟨.empty⟩

/-- Gives everything under a root a priority, in place of an earlier one. -/
def assign (p : Priorities) (root : Oid) (rank : Int32) : Priorities := ⟨p.ranks.insert root rank⟩

/-- The listed priorities, of two for one root the later. -/
def ofList (ranks : List (Oid × Int32)) : Priorities := ranks.foldl (fun p entry => p.assign entry.1 entry.2) empty

/-- The priority of an identifier: that of the longest root above it. No root above the identifier stands
    behind it, and the longest one stands last, but others may stand in between. -/
def rank? (p : Priorities) (o : Oid) : Option Int32 :=
  ((p.ranks.upTo o).reverse.find? fun entry => o.isUnder entry.1).map (·.2)

/-- Orders regions by priority, the least number first, and otherwise as `Region.order` does. -/
def order (p : Priorities) (a b : Region) : Ordering :=
  match p.rank? a.lower, p.rank? b.lower with
  | some x, some y => (compare x y).then (Region.order a b)
  | some _, none => .lt
  | none, some _ => .gt
  | none, none => Region.order a b

end Priorities

end Responder
