import Responder.Object.Basic
import Responder.Vacm.Tables

/-! Queries: what a look-up in a registry is for, which objects can serve it, and which of these it has
    to lock. A search is authorized by the first variable that an object has in the region, anything
    else by the variable that is addressed. -/

namespace Responder

/-- A view that restricts a query, with the tables that define it. -/
structure ViewFilter where
  tables : Vacm.Tables
  name : Octets
deriving Inhabited

/-- What is looked up. -/
structure Query where
  region : Region
  writes : Bool
  view : Option ViewFilter := none
deriving Inhabited

namespace Query

/-- Whether the query is for the first variable past its lower end. -/
def isSearch (q : Query) : Bool := !q.region.lowerIncluded && q.region.upper != some q.region.lower

/-- Whether the query may touch a variable. -/
def allows (q : Query) (o : Oid) : Bool :=
  match q.view with
  | some filter => filter.tables.allows filter.name o
  | none => true

/-- Whether an object can serve the query. -/
def accepts {Obj : Type} [ManagedObject Obj] (q : Query) (object : Obj) : Bool :=
  if q.isSearch then
    match ManagedObject.find? object q.region with
    | some first => q.allows first
    | none => false
  else q.allows q.region.lower

end Query

/-- Decides whether a look-up on behalf of a transaction has to lock what it finds. -/
def Locking : Type := TransactionId → Query → Bool

namespace Locking

def never : Locking := fun _ _ => false

/-- Only what is to be written is locked. -/
def writes : Locking := fun _ q => q.writes

def always : Locking := fun _ _ => true

instance : Inhabited Locking := ⟨writes⟩

end Locking

end Responder
