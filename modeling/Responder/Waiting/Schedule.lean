import Responder.State

/-! Schedules: the activities of an agent, run one at a time on the shared state. One activity at most
    is in front, and its result is waited for; the others are tasks in the background, of which only
    so many may be begun and not yet ended. An activity runs until it ends or waits for a lock. A
    release wakes those that wait in the registry, in the order in which they began to wait, and they
    have their turns after what was ready before them. Time passes only when nothing is ready. -/

namespace Responder

/-- What waits for a lock. -/
inductive Strand (Obj : Type) where
  /-- The activity in front, which whoever runs it keeps at hand. -/
  | front
  /-- What is left of a task. -/
  | task (resume : Wakeup → State Obj → Progress (State Obj) Unit)

/-- An activity that waits for a lock. -/
structure Waiter (Obj : Type) where
  wait : Wait
  /-- When it stops waiting, if it does not wait for ever. -/
  deadline : Option Instant
  strand : Strand Obj

namespace Waiter

variable {Obj : Type}

/-- When time alone ends the wait, if it ever does. -/
def due? (w : Waiter Obj) : Option Instant :=
  match w.deadline, w.wait.expiry with
  | some a, some b => some (if a.isBy b then a else b)
  | some a, none => some a
  | none, b => b

/-- Whether time alone has ended the wait. -/
def isDue (w : Waiter Obj) (now : Instant) : Bool := w.due?.any (·.isBy now)

end Waiter

/-- What is ready to run. -/
inductive Job (Obj : Type) where
  /-- To release a lock. -/
  | unlock (registry : Nat) (owner : TransactionId) (object : ObjectId)
  /-- To begin a task as soon as one more may be in progress. -/
  | start (task : Doing Obj Unit)
  /-- To begin a task that counts as in progress already. -/
  | proceed (task : Doing Obj Unit)
  /-- To see whether a wait is over. -/
  | wake (waiter : Waiter Obj)

/-- The activities of an agent and the state that they share. -/
structure Schedule (Obj : Type) where
  state : State Obj
  /-- How many tasks may be in progress at once. -/
  limit : Nat
  /-- What has a turn next, the first thing first. -/
  ready : List (Job Obj) := []
  /-- What waits for a lock, the longest wait first. -/
  waiters : List (Waiter Obj) := []
  /-- The tasks that wait until one more may be in progress. -/
  backlog : List (Doing Obj Unit) := []
  running : Nat := 0
  /-- Up to when deadlines have taken effect. -/
  swept : Instant := ⟨0⟩

namespace Schedule

variable {Obj α : Type}

/-- The schedule with one more thing that is ready. -/
def push (s : Schedule Obj) (job : Job Obj) : Schedule Obj := { s with ready := s.ready ++ [job] }

/-- Wakes all that wait in a registry. -/
def wakeAll (s : Schedule Obj) (registry : Nat) : Schedule Obj :=
  { s with
    ready := s.ready ++ (s.waiters.filter fun w => w.wait.registry == registry).map .wake
    waiters := s.waiters.filter fun w => w.wait.registry != registry }

/-- The schedule with another shared state, whose releases wake those that wait for them. -/
def withState (s : Schedule Obj) (state : State Obj) : Schedule Obj :=
  state.released.foldl wakeAll { s with state := { state with released := [] } }

/-- Begins to wait on behalf of a strand. -/
def enqueue (s : Schedule Obj) (wait : Wait) (strand : Strand Obj) : Schedule Obj :=
  let deadline := if wait.timeout.isZero then none else some (s.state.now.plus wait.timeout)
  { s with waiters := s.waiters ++ [⟨wait, deadline, strand⟩] }

/-- Lets the next task of the backlog begin in place of one that has ended. -/
def handOver (s : Schedule Obj) : Schedule Obj :=
  match s.backlog with
  | task :: backlog => { s with backlog }.push (.proceed task)
  | [] => { s with running := s.running - 1 }

/-- Takes in how far a task has come. -/
def takeIn (s : Schedule Obj) (p : Progress (State Obj) Unit) : Schedule Obj :=
  match p.settle s.swept with
  | .done _ state => (s.withState state).handOver
  | .waiting wait state resume => (s.withState state).enqueue wait (.task resume)

/-- Sees whether a wait is over: the lock is free, or time has ended the wait. If it is not over, it goes on
behind the other waits. -/
def attempt (s : Schedule Obj) (w : Waiter Obj) : Option Wakeup × Schedule Obj :=
  match s.state.tryLock w.wait.registry w.wait.owner w.wait.object with
  | (true, state) => (some .granted, { s with state })
  | (false, _) =>
    if w.deadline.any (·.isBy s.swept) then (some .timedOut, s)
    else if w.wait.expiry.any (·.isBy s.swept) then (some .expired, s)
    else (none, { s with waiters := s.waiters ++ [w] })

/-- One turn. If it ends the wait of the activity in front, it says how, and leaves that activity to be run. -/
def turn (s : Schedule Obj) : Job Obj → Option Wakeup × Schedule Obj
  | .unlock registry owner object => (none, s.withState (s.state.unlock registry owner object).2)
  | .start task =>
    if s.running < s.limit then (none, { s with running := s.running + 1 }.takeIn (task s.state))
    else (none, { s with backlog := s.backlog ++ [task] })
  | .proceed task => (none, s.takeIn (task s.state))
  | .wake w =>
    match s.attempt w, w.strand with
    | (none, s), _ => (none, s)
    | (some wakeup, s), .front => (some wakeup, s)
    | (some wakeup, s), .task resume => (none, s.takeIn (resume wakeup s.state))

/-- When time will end a wait for the first time. -/
def nextDue? (s : Schedule Obj) : Option Instant :=
  (s.waiters.filterMap Waiter.due?).foldl
    (fun best t => match best with
      | some best => some (if best.isBy t then best else t)
      | none => some t) none

/-- Lets time pass up to a point, and wakes those whose waits it has ended, the first to end first. -/
def elapse (s : Schedule Obj) (t : Instant) : Schedule Obj :=
  let now := s.state.now.later t
  let due := (s.waiters.filter fun w => w.isDue now).mergeSort fun a b =>
    match a.due?, b.due? with
    | some a, some b => a.isBy b
    | _, _ => true
  { s with
    state := { s.state with now }
    swept := now
    ready := s.ready ++ due.map .wake
    waiters := s.waiters.filter fun w => !w.isDue now }

/-- The schedule without an activity in front. -/
def dropFront (s : Schedule Obj) : Schedule Obj :=
  let isTask (w : Waiter Obj) : Bool := match w.strand with
    | .front => false
    | .task _ => true
  { s with
    waiters := s.waiters.filter isTask
    ready := s.ready.filter fun
      | .wake w => isTask w
      | _ => true }

/-- Runs what is ready until the activity in front ends its wait and then itself. Nothing comes of it if
nothing can ever end the wait, or not within a number of turns. -/
def follow : Nat → (Wakeup → State Obj → Progress (State Obj) α) → Schedule Obj → Option α × Schedule Obj
  | 0, _, s => (none, s.dropFront)
  | turns + 1, resume, s =>
    match s.ready with
    | [] =>
      match s.nextDue? with
      | none => (none, s.dropFront)
      | some t => follow turns resume (s.elapse t)
    | job :: ready =>
      match { s with ready }.turn job with
      | (none, s) => follow turns resume s
      | (some wakeup, s) =>
        match (resume wakeup s.state).settle s.swept with
        | .done a state => (some a, s.withState state)
        | .waiting wait state resume => follow turns resume ((s.withState state).enqueue wait .front)

/-- Runs an activity in front to its end. What else is ready has turns only while that activity waits. -/
def run (s : Schedule Obj) (turns : Nat) (act : Doing Obj α) : Option α × Schedule Obj :=
  match (act s.state).settle s.swept with
  | .done a state => (some a, s.withState state)
  | .waiting wait state resume => follow turns resume ((s.withState state).enqueue wait .front)

/-- Gives turns to all that is ready until nothing is, and to those whose waits have ended by now. -/
def drain : Nat → Schedule Obj → Schedule Obj
  | 0, s => s
  | turns + 1, s =>
    match s.ready with
    | job :: ready => drain turns ({ s with ready }.turn job).2
    | [] =>
      if s.waiters.any fun w => w.isDue s.state.now then drain turns (s.elapse s.state.now)
      else { s with swept := s.state.now }

end Schedule

end Responder
