import Responder.State

/-! Look-ups: the first entry of a registry that a query accepts. Where locks are needed, an object is
    locked before it is asked, and unlocked again if it is not accepted. An object whose lock cannot
    be had in time is passed over, and the look-up says so if it finds nothing else. -/

namespace Responder

/-- What a look-up finds, and how its locking ended. -/
structure Finding where
  entry : Option Entry
  lock : LockStatus
deriving DecidableEq, Inhabited

/-- A look-up: where, what for, and on what terms locks are taken, if they are taken at all. -/
structure Lookup where
  registry : Nat
  query : Query
  terms : Option LockTerms

namespace Lookup

variable {Obj : Type} [ManagedObject Obj]

/-- The terms on which the look-up locks, if its registry has it lock at all. -/
def locking? (l : Lookup) (s : State Obj) : Option LockTerms :=
  l.terms.filter fun terms => (s.registry l.registry).locksFor terms.owner l.query

/-- The finding when there are no more entries. -/
def nothing (late : Bool) : Finding := ⟨none, if late then .timedOut else .notRequired⟩

/-- How a lock is held by a look-up that may have passed over another one. -/
def heldStatus (late : Bool) : LockStatus := if late then .lockedAfterTimeout else .locked

/-- Asks an object that is locked if it has to be; one that is not accepted is unlocked. -/
def examine (l : Lookup) (locked : Option LockTerms) (late : Bool) (e : Entry) : Doing Obj (Option Finding) := do
  let s ← get
  if l.query.accepts (s.objects e.object) then
    return some ⟨some e, if locked.isSome then heldStatus late else .notRequired⟩
  else
    if let some terms := locked then set (s.unlock l.registry terms.owner e.object).2
    return none

/-- Goes through entries in their order. `onContention` is what to do about an object that somebody else
has locked; without it, the object is passed over. -/
def walk (l : Lookup) (onContention : Option (LockTerms → Entry → Bool → Doing Obj Finding)) :
    List Entry → Bool → Doing Obj Finding
  | [], late => return nothing late
  | e :: rest, late => do
    match l.locking? (← get) with
    | none =>
      match ← l.examine none late e with
      | some finding => return finding
      | none => l.walk onContention rest late
    | some terms =>
      if ← modifyGet (·.tryLock l.registry terms.owner e.object) then
        match ← l.examine (some terms) late e with
        | some finding => return finding
        | none => l.walk onContention rest late
      else match onContention with
        | some wait => wait terms e late
        | none => l.walk onContention rest true

/-- Waits for the lock of an entry, and goes on from there. The entries that come after it are read anew,
as the registry may have changed meanwhile. -/
def resume (l : Lookup) (next : List Entry → Bool → Doing Obj Finding) (terms : LockTerms) (e : Entry)
    (late : Bool) : Doing Obj Finding := do
  let rest (s : State Obj) := (s.registry l.registry).candidatesAfter l.query e.region
  if ← Activity.await ⟨l.registry, e.object, terms.owner, terms.timeout, none⟩ then
    match ← l.examine (some terms) late e with
    | some finding => return finding
    | none => next (rest (← get)) late
  else next (rest (← get)) true

/-- Goes through entries in their order, and waits for locks no more than `patience` times. -/
def search (l : Lookup) : Nat → List Entry → Bool → Doing Obj Finding
  | 0 => l.walk none
  | patience + 1 => l.walk (some (l.resume (l.search patience)))

/-- The first entry that the query accepts. There is patience to wait for each candidate that is there at first, and
for some more in case that others are registered meanwhile. -/
def run (l : Lookup) (patience : Nat) : Doing Obj Finding := do
  let candidates := ((← get).registry l.registry).candidates l.query
  l.search (candidates.length + patience) candidates false

end Lookup

end Responder
