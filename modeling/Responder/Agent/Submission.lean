import Responder.Agent.Dispatch
import Responder.Waiting.Schedule

/-! Handing messages to an agent that has other activities under way. An agent without tasks in the
    background serves a request where it arrives; any other takes the message in, and leaves the
    serving to a task. -/

namespace Responder.Agent

variable {Obj : Type} [ManagedObject Obj]

/-- Serves a request in the background, where nobody learns of its errors. -/
def task (a : Agent Obj) (m : Inbound) (mapping : Option Mapping) : Doing Obj Unit := do
  let _ ← a.serve m mapping

/-- Hands a message over. There is no result if the request waits for what cannot come. -/
def submit (a : Agent Obj) (turns : Nat) (m : Inbound) (s : Schedule Obj) :
    Option (Except Error Unit) × Schedule Obj :=
  if a.settings.maxConcurrent = 0 then s.run turns (a.process m)
  else match a.receive m s.state with
    | (.ended result, state) => (some result, s.withState state)
    | (.serve m mapping, state) => (some (.ok ()), (s.withState state).push (.start (a.task m mapping)))

omit [ManagedObject Obj] in
/-- Drops the requests that have expired; before and after it, tasks run until all of them have ended or wait. -/
def sweep (turns : Nat) (s : Schedule Obj) : Schedule Obj :=
  let s := s.drain turns
  (s.withState (expire s.state).2).drain turns

end Responder.Agent
