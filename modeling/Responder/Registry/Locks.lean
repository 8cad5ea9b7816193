import Responder.Request.Item
import Responder.Time

/-! The locks of a registry. A lock belongs to a transaction, which may take it again and has to
    release it as often; other transactions have to wait until it is free. -/

namespace Responder

/-- A lock that is taken. -/
structure Hold where
  object : ObjectId
  owner : TransactionId
  /-- How often the owner has taken it and not released it yet. -/
  count : Nat
deriving DecidableEq, Inhabited

/-- The locks that are taken, at most one for an object. -/
structure Locks where
  holds : List Hold := []
deriving DecidableEq, Inhabited

namespace Locks

def hold? (t : Locks) (object : ObjectId) : Option Hold := t.holds.find? fun h => h.object = object

/-- The transaction that holds the lock of an object. -/
def holder? (t : Locks) (object : ObjectId) : Option TransactionId := (t.hold? object).map (·.owner)

def isLocked (t : Locks) (object : ObjectId) : Bool := (t.hold? object).isSome

/-- The locks with the hold on one object changed. -/
def adjust (t : Locks) (object : ObjectId) (f : Hold → Option Hold) : Locks :=
  ⟨t.holds.filterMap fun h => if h.object = object then f h else some h⟩

/-- The locks after a transaction has taken one, unless another transaction holds it. -/
def take? (t : Locks) (owner : TransactionId) (object : ObjectId) : Option Locks :=
  match t.hold? object with
  | none => some ⟨t.holds ++ [⟨object, owner, 1⟩]⟩
  | some h =>
    if h.owner = owner then some (t.adjust object fun h => some { h with count := h.count + 1 }) else none

/-- The locks after a transaction has released one once, if it holds it. -/
def release? (t : Locks) (owner : TransactionId) (object : ObjectId) : Option Locks :=
  match t.hold? object with
  | none => none
  | some h =>
    if h.owner = owner
    then some (t.adjust object fun h => if h.count ≤ 1 then none else some { h with count := h.count - 1 })
    else none

def releaseAll (t : Locks) (owner : TransactionId) : Locks := ⟨t.holds.filter fun h => h.owner ≠ owner⟩

def heldBy (t : Locks) (owner : TransactionId) : Nat := (t.holds.filter fun h => h.owner = owner).length

def size (t : Locks) : Nat := t.holds.length

def isEmpty (t : Locks) : Bool := t.holds.isEmpty

end Locks

/-- On what terms a look-up takes locks. -/
structure LockTerms where
  owner : TransactionId
  /-- How long it waits for a lock; zero is for ever. -/
  timeout : Duration
deriving DecidableEq

/-- How the locking of a look-up ended. -/
inductive LockStatus where
  /-- No lock was needed, or none was kept. -/
  | notRequired
  | locked
  /-- A lock was taken, after that of an earlier object could not be had in time. -/
  | lockedAfterTimeout
  /-- Nothing was found, and the lock of an object could not be had in time. -/
  | timedOut
deriving DecidableEq, Inhabited

def LockStatus.isLocked : LockStatus → Bool
  | locked | lockedAfterTimeout => true
  | notRequired | timedOut => false

end Responder
