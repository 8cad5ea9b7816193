import Responder.Counters
import Responder.Proxy
import Responder.Registry.Basic
import Responder.Request.Basic
import Responder.Request.Outstanding
import Responder.Waiting.Progress

/-! The state that the requests of an agent share: the objects, the registries with their locks, the
    outstanding requests, the counters and forwarders, and what has been done and sent so far. Each
    elementary change has a name of its own. -/

namespace Responder

/-- Something that an agent has done to the world around it. -/
inductive Event where
  /-- An object was called for an item, which addressed a variable at that time. -/
  | call (object : ObjectId) (callback : Callback) (index : Nat) (oid : Oid) (who : Requester)
  /-- A request was handed to a forwarder. -/
  | relay (forwarder : String) (parcel : Proxy.Parcel)

/-- What became of an item in one step of its service. -/
structure Step where
  who : Requester
  callback : Callback
  /-- The object that was called. Where there is none, the item got an error instead. -/
  object : Option ObjectId
  before : Item
  after : Item
  result : Except Fault Bool

/-- A request that waits to be taken up again. -/
structure Pending where
  request : Request
  message : Inbound
  registry : Nat

/-- The state that the requests of an agent share. -/
structure State (Obj : Type) where
  objects : ObjectId → Obj
  registries : List Registry
  outstanding : Outstanding Pending
  counters : Counters := {}
  routes : Proxy.Routes := {}
  /-- The answers that were sent, the first one first. -/
  sent : List Outbound := []
  trace : List Event := []
  /-- The steps that items have gone through, the first one first. -/
  journal : List Step := []
  now : Instant := ⟨0⟩
  /-- How many transactions there have been. -/
  transactions : Nat := 0
  /-- The registries that released a lock since waiting activities were last woken. -/
  released : List Nat := []

namespace State

variable {Obj : Type}

/-- The registry with a number; where there is none, an empty one. -/
def registry (s : State Obj) (number : Nat) : Registry := s.registries.getD number {}

def setRegistry (s : State Obj) (number : Nat) (r : Registry) : State Obj :=
  { s with registries := s.registries.set number r }

def setLocks (s : State Obj) (number : Nat) (locks : Locks) : State Obj :=
  s.setRegistry number { s.registry number with locks }

def setObject (s : State Obj) (id : ObjectId) (object : Obj) : State Obj :=
  { s with objects := fun other => if other = id then object else s.objects other }

def newTransaction (s : State Obj) : TransactionId × State Obj :=
  (⟨s.transactions⟩, { s with transactions := s.transactions + 1 })

/-- Takes a lock without waiting. -/
def tryLock (s : State Obj) (number : Nat) (owner : TransactionId) (object : ObjectId) : Bool × State Obj :=
  match (s.registry number).locks.take? owner object with
  | some locks => (true, s.setLocks number locks)
  | none => (false, s)

/-- Notes that a lock of a registry may have become free. -/
def noteRelease (s : State Obj) (number : Nat) : State Obj := { s with released := s.released ++ [number] }

/-- Releases a lock once, if its owner does. -/
def unlock (s : State Obj) (number : Nat) (owner : TransactionId) (object : ObjectId) : Bool × State Obj :=
  match (s.registry number).locks.release? owner object with
  | some locks =>
    let s := s.setLocks number locks
    (true, if locks.isLocked object then s else s.noteRelease number)
  | none => (false, s)

/-- Releases all locks of a transaction, and says how many they were. -/
def releaseLocks (s : State Obj) (number : Nat) (owner : TransactionId) : Nat × State Obj :=
  let locks := (s.registry number).locks
  let count := locks.heldBy owner
  if count = 0 then (0, s) else (count, (s.setLocks number (locks.releaseAll owner)).noteRelease number)

/-- Raises a counter, and says what its value is now. -/
def count (s : State Obj) (counter : Counter) : UInt32 × State Obj :=
  let counters := s.counters.raise counter
  (counters.get counter, { s with counters })

def note (s : State Obj) (event : Event) : State Obj := { s with trace := s.trace ++ [event] }

def enter (s : State Obj) (step : Step) : State Obj := { s with journal := s.journal ++ [step] }

/-- Calls an object for an item, and applies its edits. -/
def call [ManagedObject Obj] (s : State Obj) (callback : Callback) (who : Requester) (id : ObjectId) (item : Item) :
    (Item × Except Fault Bool) × State Obj :=
  let reaction := ManagedObject.call callback who item (s.objects id)
  let after := item.editAll reaction.edits
  ((after, reaction.result),
    ((s.note (.call id callback item.index item.oid who)).enter
      ⟨who, callback, some id, item, after, reaction.result⟩).setObject id reaction.object)

/-- Ends an item with an error, as there is no object to call. -/
def refuse (s : State Obj) (callback : Callback) (who : Requester) (item : Item) (status : Status) :
    Item × State Obj :=
  let after := item.setError status
  (after.finish, s.enter ⟨who, callback, none, item, after, .ok false⟩)

end State

/-- An activity of an agent. -/
abbrev Doing (Obj : Type) := Activity (State Obj)

/-- Takes a lock, and waits for it if somebody else holds it; zero is for ever. Says whether it was taken. -/
def Doing.lock {Obj : Type} (registry : Nat) (owner : TransactionId) (object : ObjectId) (timeout : Duration) :
    Doing Obj Bool := do
  if ← modifyGet (·.tryLock registry owner object) then return true
  else Activity.await ⟨registry, object, owner, timeout, none⟩

end Responder
