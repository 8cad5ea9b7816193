import Responder.Registry.Lookup

/-! Services: what an agent does for one kind of request. A service takes a request as far as it can
    in its current phase; items that it leaves open are taken up again later. -/

namespace Responder

/-- What services apply to every look-up and every call of an object. -/
structure Policy where
  /-- How long to wait for the lock of an object; zero is for ever. -/
  lockTimeout : Duration
  /-- Whether faults of instrumentation are passed on to the caller. -/
  forwardFaults : Bool := false
  access : Option Vacm.Tables := none
  /-- A bound on the recursion of searches, beyond as many steps as there are candidates, and no rule of the protocol:
  it cuts off only what objects that offer one counter after the other, or registrations without end, would keep going
  for ever. What is stated of services holds for every value. -/
  patience : Nat := 0

namespace Policy

/-- The query for a region on behalf of somebody, restricted to the view that access control gives. -/
def query (p : Policy) (who : Requester) (region : Region) (writes : Bool) : Query where
  region
  writes
  view := match p.access, who.view with
    | some tables, some name => some ⟨tables, name⟩
    | _, _ => none

/-- The terms on which locks are taken on behalf of somebody. -/
def terms (p : Policy) (who : Requester) : LockTerms := ⟨who.transaction, p.lockTimeout⟩

/-- Reports a fault on an item, which is over with it. The error is what is passed on, if faults are. -/
def report (p : Policy) (item : Item) (status : Status) (fault : Fault) : Item × Option Error :=
  ((item.setError (fault.statusOr status)).finish,
    if p.forwardFaults then some (.instrumentation item.oid fault) else none)

end Policy

/-- What an agent does for one kind of request. -/
structure Service (Obj : Type) where
  serves : Pdu.Kind → Bool
  /-- Takes a request further, with the objects of the registry with a number. -/
  run : Policy → Nat → Request → Doing Obj (Request × Option Error)

/-- Looks something up on behalf of somebody. -/
def Policy.lookUp {Obj : Type} [ManagedObject Obj] (p : Policy) (registry : Nat) (who : Requester) (query : Query) :
    Doing Obj Finding :=
  Lookup.run ⟨registry, query, some (p.terms who)⟩ p.patience

/-- Calls an object for an item. -/
def callObject {Obj : Type} [ManagedObject Obj] (callback : Callback) (who : Requester) (object : ObjectId)
    (item : Item) : Doing Obj (Item × Except Fault Bool) :=
  modifyGet fun s => s.call callback who object item

/-- Releases the lock that a look-up has left on what it found. -/
def Finding.release {Obj : Type} (f : Finding) (registry : Nat) (who : Requester) (object : ObjectId) :
    Doing Obj Unit :=
  if f.lock.isLocked then modify fun s => (s.unlock registry who.transaction object).2 else return

/-- Takes the open items of a list further, one after the other, until one of them ends in an error. -/
def serveOpen {Obj : Type} (serve : Item → Doing Obj (Item × Option Error)) :
    List Item → Doing Obj (List Item × Option Error)
  | [] => return ([], none)
  | item :: rest => do
    if item.complete then
      let (rest, error) ← serveOpen serve rest
      return (item :: rest, error)
    else
      match ← serve item with
      | (item, some error) => return (item :: rest, some error)
      | (item, none) =>
        let (rest, error) ← serveOpen serve rest
        return (item :: rest, error)

end Responder
