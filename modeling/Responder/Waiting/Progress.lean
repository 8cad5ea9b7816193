import Responder.Registry.Locks

/-! Activities: computations that may have to wait for a lock on their way. An activity runs on a
    shared state until it is done or meets a lock that somebody else holds; what is left of it then
    waits to be woken, on whatever state there is at that time. -/

namespace Responder

/-- A lock that is waited for. -/
structure Wait where
  registry : Nat
  object : ObjectId
  owner : TransactionId
  /-- How long to wait at most; zero is for ever. -/
  timeout : Duration
  /-- When the request that waits is given up, if it can be. -/
  expiry : Option Instant := none
deriving DecidableEq

/-- How a wait ends. -/
inductive Wakeup where
  | granted
  | timedOut
  | expired
deriving DecidableEq, Inhabited

/-- How far an activity has come: to its end, or to a lock that it waits for. -/
inductive Progress (σ α : Type) where
  | done (result : α) (state : σ)
  | waiting (wait : Wait) (state : σ) (resume : Wakeup → σ → Progress σ α)

namespace Progress

variable {σ α β γ : Type}

/-- Goes on with the result, once there is one. -/
def bind (p : Progress σ α) (f : α → σ → Progress σ β) : Progress σ β :=
  match p with
  | done a s => f a s
  | waiting wait s resume => waiting wait s fun wakeup s => (resume wakeup s).bind f

/-- The state in which the activity is done or waits. -/
def state : Progress σ α → σ
  | done _ s => s
  | waiting _ s _ => s

/-- The activity, given up where it still waits at a point in time. -/
def before (expiry : Instant) : Progress σ α → Progress σ (Option α)
  | done a s => done (some a) s
  | waiting wait s resume =>
    waiting { wait with expiry := some expiry } s fun wakeup s =>
      match wakeup with
      | .expired => done none s
      | wakeup => (resume wakeup s).before expiry

/-- The activity after it is given up wherever its time is over before it begins to wait. -/
def settle (now : Instant) : Progress σ α → Progress σ α
  | done a s => done a s
  | waiting wait s resume =>
    if wait.expiry.any (·.isBefore now) then (resume .expired s).settle now else waiting wait s resume

@[simp] theorem bind_done (a : α) (s : σ) (f : α → σ → Progress σ β) : (done a s).bind f = f a s := rfl

@[simp] theorem bind_right (p : Progress σ α) : p.bind done = p := by
  induction p with
  | done a s => rfl
  | waiting wait s resume ih => exact congrArg _ (funext fun wakeup => funext fun s => ih wakeup s)

theorem bind_assoc (p : Progress σ α) (f : α → σ → Progress σ β) (g : β → σ → Progress σ γ) :
    (p.bind f).bind g = p.bind fun a s => (f a s).bind g := by
  induction p with
  | done a s => rfl
  | waiting wait s resume ih => exact congrArg _ (funext fun wakeup => funext fun s => ih wakeup s)

end Progress

/-- A computation on a shared state that may have to wait. -/
def Activity (σ α : Type) : Type := σ → Progress σ α

namespace Activity

variable {σ α : Type}

instance : Monad (Activity σ) where
  pure a := fun s => .done a s
  bind act f := fun s => (act s).bind f

instance : MonadStateOf σ (Activity σ) where
  get := fun s => .done s s
  set s := fun _ => .done () s
  modifyGet f := fun s => let (a, s) := f s; .done a s

instance : LawfulMonad (Activity σ) :=
  LawfulMonad.mk' _ (fun act => funext fun s => (act s).bind_right) (fun _ _ => rfl)
    (fun act _ _ => funext fun s => (act s).bind_assoc _ _)

/-- Waits for a lock, and says whether it was taken. -/
def await (wait : Wait) : Activity σ Bool :=
  fun s => .waiting wait s fun wakeup s => .done (wakeup = .granted) s

/-- The activity, given up where it still waits at a point in time. -/
def before (act : Activity σ α) (expiry : Instant) : Activity σ (Option α) := fun s => (act s).before expiry

end Activity

end Responder
