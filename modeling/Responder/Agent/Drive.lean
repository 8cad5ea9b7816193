import Responder.Agent.Basic

/-! Driving requests: one pass of a service over a request, what becomes of the request after it, and
    the taking up of those that were parked. -/

namespace Responder.Agent

variable {Obj : Type}

/-- Drops a request without an answer. -/
def drop (registry : Nat) (id : TransactionId) (s : State Obj) : State Obj :=
  let s := (s.releaseLocks registry id).2
  { s with outstanding := s.outstanding.remove id }

/-- Parks a request until it is taken up again. One that has expired meanwhile only loses its locks. -/
def park (p : Pending) (s : State Obj) : State Obj :=
  match s.outstanding.park? p.request.transaction p with
  | some outstanding => { s with outstanding }
  | none => (s.releaseLocks p.registry p.request.transaction).2

/-- When a request is given up. -/
def expiry (a : Agent Obj) (r : Request) : Instant := r.created.plus a.settings.requestTimeout

/-- One pass over a request. It is answered if it is complete, and parked if not; without an answer it is
dropped if it waits past its time, or ends in an error that is passed on. -/
def drive [ManagedObject Obj] (a : Agent Obj) (p : Pending) : Doing Obj (Except Error Unit) := do
  let pass := match a.serviceFor? p.request.pdu.kind with
    | some service => service.run a.policy p.registry p.request
    | none => return (p.request, none)
  match ← pass.before (a.expiry p.request) with
  | none =>
    modify (drop p.registry p.request.transaction)
    return .ok ()
  | some (_, some error) =>
    modify (drop p.registry p.request.transaction)
    return .error error
  | some (request, none) =>
    if request.isComplete then modifyGet (a.finish request p.message (some p.registry))
    else
      modify (park { p with request })
      return .ok ()

/-- Takes up requests one after the other; an error does not stop the others, and the first one is kept. -/
def driveAll [ManagedObject Obj] (a : Agent Obj) : List (TransactionId × Pending) → Doing Obj (Option Error)
  | [] => return none
  | (_, p) :: rest => do
    let result ← a.drive { p with request := p.request.retry }
    let later ← a.driveAll rest
    match result with
    | .ok _ => return later
    | .error error => return some error

/-- Takes up every parked request, and says how many there were. -/
def takeUp [ManagedObject Obj] (a : Agent Obj) : Doing Obj (Except Error Nat) := do
  let parked ← modifyGet fun s : State Obj =>
    let (parked, outstanding) := s.outstanding.takeParked
    (parked, { s with outstanding })
  match ← a.driveAll parked with
  | some error => return .error error
  | none => return .ok parked.length

/-- Releases the locks of a request that has expired: in its registry if it was parked, else in all. -/
def releaseExpired (s : State Obj) : TransactionId × Option Pending → State Obj
  | (id, some p) => (s.releaseLocks p.registry id).2
  | (id, none) => (List.range s.registries.length).foldl (fun s registry => (s.releaseLocks registry id).2) s

/-- Drops every request that is outstanding past its time, and says how many there were. -/
def expire (s : State Obj) : Nat × State Obj :=
  let (expired, outstanding) := s.outstanding.expire s.now
  (expired.length, expired.foldl releaseExpired { s with outstanding })

end Responder.Agent
