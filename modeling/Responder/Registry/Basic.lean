import Responder.Registry.Locks
import Responder.Registry.Query

/-! Registries: objects by region, in the order of `Region.order`. Two entries that can be seen in
    one context never share an identifier, so the entries that a context can see follow each other
    as their identifiers do. -/

namespace Responder

/-- An object and the region that it is registered under. -/
structure Entry where
  region : Region
  object : ObjectId
deriving DecidableEq, Inhabited

/-- An object in a context, or in all of them. -/
structure Registration where
  object : ObjectId
  context : Option ContextName
deriving DecidableEq, Inhabited

/-- A registry. -/
structure Registry where
  /-- The entries in ascending order of their regions. -/
  entries : List Entry := []
  /-- The region of each registration. -/
  regions : List (Registration × Region) := []
  /-- The named contexts that the registry serves, in ascending order. -/
  contexts : List ContextName := []
  locks : Locks := {}
  locking : Locking := .writes
deriving Inhabited

namespace Registry

/-- The context that a name stands for: the empty name stands for all contexts. -/
def contextOf (name : Option ContextName) : Option ContextName := name.filter fun c => !c.isEmpty

/-- The entries that may reach an identifier: those before them end below it. -/
def entriesFrom (r : Registry) (o : Oid) : List Entry :=
  r.entries.dropWhile fun e => Region.order e.region (.reaching o) == .lt

/-- The first entry that stands in the way of a region. -/
def conflict? (r : Registry) (region : Region) : Option Entry :=
  (r.entriesFrom region.lower).find? fun e => e.region.overlaps region

/-- The entries with one more, in its place. -/
def insertEntry (entries : List Entry) (e : Entry) : List Entry :=
  (entries.takeWhile fun x => Region.order x.region e.region == .lt) ++
    e :: entries.dropWhile fun x => Region.order x.region e.region != .gt

/-- Registers an object under a region in a context, or says under which region it cannot be. -/
def register (r : Registry) (object : ObjectId) (region : Region) (context : Option ContextName) :
    Except Error Registry :=
  let context := contextOf context
  let region := region.inContext context
  match r.conflict? region with
  | some _ => .error (.overlap region)
  | none =>
    let key : Registration := ⟨object, context⟩
    .ok { r with
      entries := insertEntry r.entries ⟨region, object⟩
      regions := (key, region) :: r.regions.filter (·.1 ≠ key) }

/-- The entry at a region, if there is one. -/
def entryAt? (r : Registry) (region : Region) : Option Entry := r.entries.find? fun e => e.region = region

/-- Takes back the registration of an object in a context; says which object had stood there. -/
def unregister (r : Registry) (object : ObjectId) (context : Option ContextName) :
    Option ObjectId × Registry :=
  let key : Registration := ⟨object, contextOf context⟩
  match r.regions.lookup key with
  | none => (none, r)
  | some region =>
    ((r.entryAt? region).map (·.object),
      { r with
        entries := r.entries.filter fun e => e.region ≠ region
        regions := r.regions.filter (·.1 ≠ key) })

/-- The object whose region starts at an identifier, as a context sees it. -/
def objectAt? (r : Registry) (o : Oid) (context : Option ContextName) : Option ObjectId :=
  ((r.entriesFrom o).find? fun e => e.region.lower = o && Region.contextsMatch e.region.context context).map
    (·.object)

/-- The entries that pass a test, in another order; equal ones stay in theirs. -/
def sortedBy (r : Registry) (order : Region → Region → Ordering) (passes : Entry → Bool) : List Entry :=
  (r.entries.filter passes).mergeSort fun a b => order a.region b.region != .gt

/-- The contexts that an object is registered in, all contexts first, and its region in each. -/
def regionsOf (r : Registry) (object : ObjectId) : List (Option ContextName × Region) :=
  ((r.regions.filter fun x => x.1.object = object).map fun x => (x.1.context, x.2)).mergeSort
    fun a b => compare a.1 b.1 != .gt

def size (r : Registry) : Nat := r.entries.length

def isEmpty (r : Registry) : Bool := r.entries.isEmpty

def addContext (r : Registry) (name : ContextName) : Registry :=
  { r with contexts :=
      (r.contexts.takeWhile fun c => compare c name == .lt) ++
        name :: r.contexts.dropWhile fun c => compare c name != .gt }

def removeContext (r : Registry) (name : ContextName) : Registry :=
  { r with contexts := r.contexts.filter (· ≠ name) }

/-- Whether the registry serves a context. The default context is always served. -/
def serves (r : Registry) (name : ContextName) : Bool := name.isEmpty || r.contexts.contains name

/-- Whether a query on behalf of a transaction has to lock what it finds. -/
def locksFor (r : Registry) (owner : TransactionId) (q : Query) : Bool := r.locking owner q

/-- The entries that a query has to look at, in their order. -/
def candidates (r : Registry) (q : Query) : List Entry :=
  (r.entriesFrom q.region.lower).filter fun e => q.region.overlaps e.region

/-- The entries that a query has to look at after it has seen the one at a region. -/
def candidatesAfter (r : Registry) (q : Query) (seen : Region) : List Entry :=
  (r.entries.dropWhile fun e => Region.order e.region seen != .gt).filter fun e => q.region.overlaps e.region

end Registry

end Responder
