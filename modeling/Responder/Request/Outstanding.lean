import Responder.Request.Item
import Responder.Time

/-! Outstanding requests: those that were accepted and are not answered yet. Each has a deadline, and
    may have a state that is parked until it is taken up again. -/

namespace Responder

/-- A request that is outstanding. -/
structure Tracked (α : Type) where
  id : TransactionId
  deadline : Instant
  parked : Option α
deriving Inhabited

/-- The outstanding requests, at most one entry for each. -/
structure Outstanding (α : Type) where
  timeout : Duration
  entries : List (Tracked α) := []
deriving Inhabited

namespace Outstanding

variable {α : Type}

/-- The list without a request. -/
def remove (t : Outstanding α) (id : TransactionId) : Outstanding α :=
  { t with entries := t.entries.filter fun e => e.id ≠ id }

/-- The list with a request that starts now, in place of an earlier one of its name. -/
def track (t : Outstanding α) (id : TransactionId) (now : Instant) : Outstanding α :=
  { t with entries := (t.remove id).entries ++ [⟨id, now.plus t.timeout, none⟩] }

/-- Whether a request is outstanding. -/
def contains (t : Outstanding α) (id : TransactionId) : Bool := t.entries.any fun e => e.id = id

/-- The list with the state of a request parked, unless the request is not outstanding. -/
def park? (t : Outstanding α) (id : TransactionId) (a : α) : Option (Outstanding α) :=
  if t.contains id
  then some { t with entries := t.entries.map fun e => if e.id = id then { e with parked := some a } else e }
  else none

/-- The parked states by ascending request, and the list without them. -/
def takeParked (t : Outstanding α) : List (TransactionId × α) × Outstanding α :=
  ((t.entries.filterMap fun e => e.parked.map fun a => (e.id, a)).mergeSort fun a b => a.1.number ≤ b.1.number,
    { t with entries := t.entries.map fun e => { e with parked := none } })

/-- The requests whose deadline is past, with what was parked of them, and the list without them. -/
def expire (t : Outstanding α) (now : Instant) : List (TransactionId × Option α) × Outstanding α :=
  ((t.entries.filter fun e => e.deadline.isBy now).map fun e => (e.id, e.parked),
    { t with entries := t.entries.filter fun e => !e.deadline.isBy now })

/-- How many requests are outstanding. -/
def size (t : Outstanding α) : Nat := t.entries.length

def isEmpty (t : Outstanding α) : Bool := t.entries.isEmpty

theorem isSome_park? (t : Outstanding α) (id : TransactionId) (a : α) :
    (t.park? id a).isSome = t.contains id := by
  unfold park?
  split <;> simp_all

end Outstanding

end Responder
