import Responder.Proofs.Custody.Alone
import Responder.Proofs.Drive
import Responder.Proofs.Mediation.Run

/-! The story of an agent without tasks in the background. One request at a time is served, with nothing else under
    way, so each of its waits is ended by time at the latest and the request is served to an end
    (`Schedule.run_of_timed`). What happens to the agent is then told as one thing after the other: a message comes in,
    a request has a pass of its own, requests expire (`Chronicle`, `chronicle_of_deeds`). -/

namespace Responder

variable {Obj α β : Type}

theorem Wait.Ends.of_later {wait : Wait} {s t u : State Obj} {wakeup : Wakeup} (h : wait.Ends t wakeup u)
    (ht : s.Later t) : wait.Ends s wakeup u := by
  cases wakeup with
  | granted =>
    obtain ⟨v, hv, htaken⟩ := h
    exact ⟨v, ht.trans hv, htaken⟩
  | timedOut => exact ht.trans h
  | expired => exact ht.trans h

namespace Progress

/-- No wait goes on for ever. -/
def Timed : Progress (State Obj) α → Prop
  | done _ _ => True
  | waiting wait _ resume => wait.expiry.isSome = true ∧ ∀ wakeup t, (resume wakeup t).Timed

theorem Timed.before (p : Progress (State Obj) α) (expiry : Instant) : (p.before expiry).Timed := by
  induction p with
  | done a s => trivial
  | waiting wait s resume ih =>
    simp only [Progress.before, Timed]
    refine ⟨rfl, fun wakeup t => ?_⟩
    cases wakeup with
    | expired => trivial
    | granted => exact ih .granted t
    | timedOut => exact ih .timedOut t

theorem Timed.bind {p : Progress (State Obj) α} {f : α → State Obj → Progress (State Obj) β} (hp : p.Timed)
    (hf : ∀ a t, (f a t).Timed) : (p.bind f).Timed := by
  induction p with
  | done a t => exact hf a t
  | waiting wait t resume ih => exact ⟨hp.1, fun wakeup t => ih wakeup t (hp.2 wakeup t)⟩

@[simp] theorem comes_done {a b : α} {s t : State Obj} : (done a s).Comes b t ↔ b = a ∧ t = s := by
  constructor
  · rintro ⟨⟩
    exact ⟨rfl, rfl⟩
  · rintro ⟨rfl, rfl⟩
    exact .done _ _

/-- What comes first comes to something, and the rest goes on from there. -/
theorem comes_bind {p : Progress (State Obj) α} {f : α → State Obj → Progress (State Obj) β} {b : β} {u : State Obj}
    (h : (p.bind f).Comes b u) : ∃ a t, p.Comes a t ∧ (f a t).Comes b u := by
  induction p with
  | done a t => exact ⟨a, t, .done a t, h⟩
  | waiting wait t resume ih =>
    cases h with
    | wait hends next =>
      obtain ⟨a, v, hfirst, hrest⟩ := ih _ _ next
      exact ⟨a, v, .wait hends hfirst, hrest⟩

end Progress

namespace Activity

/-- No wait goes on for ever, wherever the activity starts. -/
def Timed (act : Doing Obj α) : Prop := ∀ s, (act s).Timed

theorem Timed.pure (a : α) : Timed (Pure.pure a : Doing Obj α) := fun _ => trivial

theorem Timed.modifyGet (f : State Obj → α × State Obj) : Timed (MonadStateOf.modifyGet f : Doing Obj α) :=
  fun _ => trivial

theorem Timed.bind {act : Doing Obj α} {f : α → Doing Obj β} (hact : act.Timed) (hf : ∀ a, (f a).Timed) :
    Timed (act >>= f) := fun s => Progress.Timed.bind (hact s) hf

/-- What the activity comes to from a state, if nobody else does anything. -/
def Comes (act : Doing Obj α) (s : State Obj) (a : α) (t : State Obj) : Prop := (act s).Comes a t

theorem comes_bind {act : Doing Obj α} {f : α → Doing Obj β} {s u : State Obj} {b : β} (h : Comes (act >>= f) s b u) :
    ∃ a t, act.Comes s a t ∧ (f a).Comes t b u := Progress.comes_bind h

@[simp] theorem comes_pure {a b : α} {s t : State Obj} : Comes (pure a) s b t ↔ b = a ∧ t = s := Progress.comes_done

@[simp] theorem comes_modifyGet {f : State Obj → α × State Obj} {s t : State Obj} {a : α} :
    Comes (modifyGet f) s a t ↔ a = (f s).1 ∧ t = (f s).2 := Progress.comes_done

end Activity

namespace Schedule

/-- Nothing is under way. -/
structure Idle (s : Schedule Obj) : Prop where
  ready : s.ready = []
  waiters : s.waiters = []
  backlog : s.backlog = []

/-- Releases wake nobody where nobody waits. -/
theorem Idle.withState {s : Schedule Obj} (h : s.Idle) (t : State Obj) :
    (s.withState t).Idle ∧ (s.withState t).state = { t with released := [] } := by
  have hwake (numbers : List Nat) (u : Schedule Obj) (hu : u.waiters = []) : numbers.foldl wakeAll u = u := by
    induction numbers generalizing u with
    | nil => rfl
    | cons number rest ih =>
      have hsame : u.wakeAll number = u := by
        obtain ⟨_, _, ready, waiters, _, _, _⟩ := u
        obtain rfl : waiters = [] := hu
        simp [wakeAll]
      rw [List.foldl_cons, hsame, ih u hu]
  have heq : s.withState t = { s with state := { t with released := [] } } := hwake _ _ h.waiters
  rw [heq]
  exact ⟨⟨h.ready, h.waiters, h.backlog⟩, rfl⟩

theorem Idle.later {s : Schedule Obj} (h : s.Idle) (t : State Obj) : t.Later (s.withState t).state :=
  ⟨t.now, [], (h.withState t).2⟩

theorem Idle.enqueue {s : Schedule Obj} (h : s.Idle) (wait : Wait) : ∃ deadline,
    s.enqueue wait .front = { s with waiters := [⟨wait, deadline, .front⟩] } := by
  refine ⟨if wait.timeout.isZero then none else some (s.state.now.plus wait.timeout), ?_⟩
  rw [Schedule.enqueue, h.waiters]
  rfl

/-- When the only wait is due next, it is woken then. -/
theorem Idle.elapse {s : Schedule Obj} (h : s.Idle) {w : Waiter Obj} (htimed : w.wait.expiry.isSome = true) :
    ∃ due, nextDue? { s with waiters := [w] } = some due ∧ w.isDue (s.state.now.later due) = true ∧
      ({ s with waiters := [w] } : Schedule Obj).elapse due =
        { s with
          state := { s.state with now := s.state.now.later due }
          swept := s.state.now.later due
          ready := [.wake w] } := by
  obtain ⟨due, hdue⟩ : ∃ due, w.due? = some due := by
    obtain ⟨expiry, hexpiry⟩ := Option.isSome_iff_exists.mp htimed
    unfold Waiter.due?
    rw [hexpiry]
    cases w.deadline <;> exact ⟨_, rfl⟩
  have hover : w.isDue (s.state.now.later due) = true := by
    simp only [Waiter.isDue, hdue, Option.any_some, Instant.later, Instant.isBy, decide_eq_true_eq]
    split
    · exact le_rfl
    · next hlate => omega
  refine ⟨due, by simp [nextDue?, hdue], hover, ?_⟩
  simp [Schedule.elapse, hover, h.ready, h.waiters]

/-- A wait that is due ends, with the lock or without. -/
theorem attempt_of_due {s : Schedule Obj} {w : Waiter Obj} (hdue : w.isDue s.swept = true) :
    ∃ wakeup t, s.attempt w = (some wakeup, { s with state := t }) ∧ w.wait.Ends s.state wakeup t := by
  unfold attempt
  cases htried : s.state.tryLock w.wait.registry w.wait.owner w.wait.object with
  | mk taken t =>
    cases taken with
    | true => exact ⟨.granted, t, rfl, s.state, .refl _, htried⟩
    | false =>
      dsimp only
      split
      · exact ⟨.timedOut, s.state, rfl, .refl _⟩
      · next hearly =>
        have hexpired : w.wait.expiry.any (·.isBy s.swept) = true := by
          unfold Waiter.isDue Waiter.due? at hdue
          cases hdeadline : w.deadline <;> cases hexpiry : w.wait.expiry <;> simp_all
          split at hdue <;> simp_all
        rw [if_pos hexpired]
        exact ⟨.expired, s.state, rfl, .refl _⟩

theorem follow_of_due {s : Schedule Obj} {due : Instant} (hready : s.ready = []) (hdue : s.nextDue? = some due)
    {turns : Nat} {resume : Wakeup → State Obj → Progress (State Obj) α} :
    follow (turns + 1) resume s = follow turns resume (s.elapse due) := by
  simp only [follow, hready, hdue]

theorem follow_of_woken {s u : Schedule Obj} {job : Job Obj} {ready : List (Job Obj)} {wakeup : Wakeup}
    (hready : s.ready = job :: ready) (hturn : ({ s with ready } : Schedule Obj).turn job = (some wakeup, u))
    {turns : Nat} {resume : Wakeup → State Obj → Progress (State Obj) α} :
    follow (turns + 1) resume s = u.run turns fun t => resume wakeup t := by
  simp only [follow, hready, hturn, run]

/-- A wait in front with nothing else under way is over after two turns. -/
theorem follow_of_timed {s : Schedule Obj} (hs : s.Idle) {wait : Wait} (htimed : wait.expiry.isSome = true) :
    ∃ (wakeup : Wakeup) (u : Schedule Obj), u.Idle ∧ wait.Ends s.state wakeup u.state ∧
      ∀ (turns : Nat) (resume : Wakeup → State Obj → Progress (State Obj) α),
        follow (turns + 2) resume (s.enqueue wait .front) = u.run turns fun t => resume wakeup t := by
  obtain ⟨deadline, hqueue⟩ := hs.enqueue wait
  let w : Waiter Obj := ⟨wait, deadline, .front⟩
  obtain ⟨due, hnext, hdue, helapse⟩ := hs.elapse (w := w) htimed
  let now := s.state.now.later due
  let woken : Schedule Obj := { s with state := { s.state with now }, swept := now }
  obtain ⟨wakeup, t, hattempt, hends⟩ := attempt_of_due (s := woken) hdue
  refine ⟨wakeup, { woken with state := t }, ⟨hs.ready, hs.waiters, hs.backlog⟩, ?_, fun turns resume => ?_⟩
  · have hlater : s.state.Later woken.state := ⟨now, s.state.released, rfl⟩
    exact hends.of_later hlater
  · have hturn : woken.turn (.wake w) = (some wakeup, { woken with state := t }) := by
      simp only [turn, hattempt, w]
    have hleft : ({ woken with ready := [] } : Schedule Obj) = woken := by rw [← hs.ready]
    have hdrawn : follow (turns + 2) resume { s with waiters := [w] } = follow (turns + 1) resume
        (({ s with waiters := [w] } : Schedule Obj).elapse due) :=
      follow_of_due (s := { s with waiters := [w] }) hs.ready hnext
    rw [hqueue, hdrawn, helapse]
    exact follow_of_woken rfl (hleft ▸ hturn)

/-- An activity with nothing else under way runs to its end. -/
theorem run_of_timed {p : Progress (State Obj) α} (hp : p.Timed) : ∀ {s : Schedule Obj}, s.Idle →
    ∃ (enough : Nat) (a : α) (t : State Obj) (u : Schedule Obj), p.Comes a t ∧ u.Idle ∧ t.Later u.state ∧
      ∀ turns ≥ enough, (s.run turns fun _ => p) = (some a, u) := by
  induction p with
  | done a t =>
    intro s hs
    exact ⟨0, a, t, s.withState t, .done a t, (hs.withState t).1, hs.later t, fun _ _ => rfl⟩
  | waiting wait t resume ih =>
    intro s hs
    by_cases hover : wait.expiry.any (·.isBefore s.swept) = true
    · obtain ⟨enough, a, v, u, hcomes, hu, hlater, hrun⟩ := ih .expired t (hp.2 .expired t) hs
      have hends : wait.Ends t .expired t := .refl t
      refine ⟨enough, a, v, u, .wait hends hcomes, hu, hlater, fun turns hturns => ?_⟩
      rw [← hrun turns hturns]
      simp only [run, Progress.settle, if_pos hover]
    · obtain ⟨hidle, hstate⟩ := hs.withState t
      obtain ⟨wakeup, w, hw, hends, hfollow⟩ := @follow_of_timed Obj α _ hidle wait hp.1
      obtain ⟨enough, a, v, u, hcomes, hu, hlater, hrun⟩ := ih wakeup w.state (hp.2 wakeup w.state) hw
      refine ⟨enough + 2, a, v, u, .wait (hends.of_later (hs.later t)) hcomes, hu, hlater, fun turns hturns => ?_⟩
      obtain ⟨turns, rfl⟩ : ∃ n, turns = n + 2 := ⟨turns - 2, by omega⟩
      have hstart : (s.run (turns + 2) fun _ => .waiting wait t resume) =
          follow (turns + 2) resume ((s.withState t).enqueue wait .front) := by
        simp only [run, Progress.settle, if_neg hover]
      rw [hstart, hfollow]
      exact hrun turns (by omega)

/-- Where nothing is under way, there is nothing to be done. -/
theorem Idle.drain {s : Schedule Obj} (h : s.Idle) {turns : Nat} (hturns : 1 ≤ turns) :
    s.drain turns = { s with swept := s.state.now } := by
  obtain ⟨turns, rfl⟩ : ∃ n, turns = n + 1 := ⟨turns - 1, by omega⟩
  simp only [Schedule.drain, h.ready, h.waiters, List.any_nil, Bool.false_eq_true, if_false]

end Schedule

/-! ### What happens to an agent -/

/-- What a run tells of objects, and of requests that come to no answer. -/
inductive Happening where
  /-- An item goes through one step of its service. -/
  | step (st : Step)
  /-- A request is dropped without an answer. -/
  | dropped (id : TransactionId)

/-- The steps that were taken from one state to another. -/
def State.since (s t : State Obj) : List Happening := (t.journal.drop s.journal.length).map .step

/-- Whether a request is dropped after a pass: it has waited past its time, or ended in an error that is passed on. -/
def Agent.parting (p : Pending) : Option (Request × Option Error) → List Happening
  | some (_, none) => []
  | _ => [.dropped p.request.transaction]

/-- What has happened to an agent one after the other, the state it is in, and the requests that it has at hand: those
that are still to be driven before anything else happens. -/
inductive Chronicle (a : Agent Obj) (s₀ : State Obj) : List Happening → State Obj → List Pending → Prop
  | start : Chronicle a s₀ [] s₀ []
  | later {hs : List Happening} {s t : State Obj} {hands : List Pending} (h : Chronicle a s₀ hs s hands)
      (ht : s.Later t) : Chronicle a s₀ hs t hands
  | receive {hs : List Happening} {s : State Obj} (h : Chronicle a s₀ hs s []) (m : Inbound) :
      Chronicle a s₀ hs (a.receive m s).2 []
  | takeOn {hs : List Happening} {s : State Obj} (h : Chronicle a s₀ hs s []) (m : Inbound)
      (mapping : Option Mapping) :
      Chronicle a s₀ hs (a.takeOn m mapping s).2 (a.takeOn m mapping s).1.getRight?.toList
  | takeUp {hs : List Happening} {s : State Obj} (h : Chronicle a s₀ hs s []) :
      Chronicle a s₀ hs { s with outstanding := s.outstanding.takeParked.2 }
        (s.outstanding.takeParked.1.map fun x => x.2.retry)
  | drive {hs : List Happening} {s t : State Obj} {p : Pending} {hands : List Pending}
      {out : Option (Request × Option Error)} (h : Chronicle a s₀ hs s (p :: hands))
      (hpass : (a.pass p).Comes s out t) :
      Chronicle a s₀ (hs ++ (s.since t ++ Agent.parting p out)) (a.conclude p out t).2 hands
  | expire {hs : List Happening} {s : State Obj} (h : Chronicle a s₀ hs s []) :
      Chronicle a s₀ (hs ++ (s.outstanding.expire s.now).1.map fun x => .dropped x.1) (Agent.expire s).2 []

variable [ManagedObject Obj] {a : Agent Obj} {s₀ s t : State Obj} {hs : List Happening} {hands : List Pending}

namespace Agent

open Activity (Timed Comes)

theorem timed_drive (p : Pending) : Timed (a.drive p) := by
  rw [drive_eq]
  exact .bind (fun s => .before _ _) fun out => .modifyGet _

theorem timed_serve (m : Inbound) (mapping : Option Mapping) : Timed (a.serve m mapping) := by
  rw [serve_eq]
  refine .bind (.modifyGet _) fun out => ?_
  cases out with
  | inl result => exact .pure _
  | inr p => exact timed_drive p

theorem timed_process (m : Inbound) : Timed (a.process m) := by
  refine .bind (.modifyGet _) fun course => ?_
  cases course with
  | ended result => exact .pure _
  | serve m mapping => exact timed_serve m mapping

theorem timed_driveAll : ∀ parked : List (TransactionId × Pending), Timed (a.driveAll parked)
  | [] => .pure _
  | (_, p) :: rest => by
    refine .bind (timed_drive p.retry) fun result => .bind (timed_driveAll rest) fun later => ?_
    cases result <;> exact .pure _

theorem timed_takeUp : Timed a.takeUp := by
  refine .bind (.modifyGet _) fun parked => .bind (timed_driveAll parked) fun error => ?_
  cases error <;> exact .pure _

end Agent

namespace Chronicle

open Activity (Timed Comes)

variable {u : State Obj}

theorem drive_of_comes {p : Pending} {result : Except Error Unit} (h : Chronicle a s₀ hs s (p :: hands))
    (hcomes : (a.drive p).Comes s result u) : ∃ hs', Chronicle a s₀ hs' u hands := by
  rw [Agent.drive_eq] at hcomes
  obtain ⟨out, t, hpass, hrest⟩ := Activity.comes_bind hcomes
  obtain ⟨-, rfl⟩ := Activity.comes_modifyGet.mp hrest
  exact ⟨_, h.drive hpass⟩

theorem serve_of_comes {m : Inbound} {mapping : Option Mapping} {result : Except Error Unit}
    (h : Chronicle a s₀ hs s []) (hcomes : (a.serve m mapping).Comes s result u) : ∃ hs', Chronicle a s₀ hs' u [] := by
  rw [Agent.serve_eq] at hcomes
  obtain ⟨out, t, htakeOn, hrest⟩ := Activity.comes_bind hcomes
  obtain ⟨rfl, rfl⟩ := Activity.comes_modifyGet.mp htakeOn
  have htaken := h.takeOn m mapping
  cases hout : (a.takeOn m mapping s).1 with
  | inl result =>
    rw [hout] at htaken hrest
    obtain ⟨-, rfl⟩ := Activity.comes_pure.mp hrest
    exact ⟨_, htaken⟩
  | inr p =>
    rw [hout] at htaken hrest
    exact htaken.drive_of_comes hrest

theorem process_of_comes {m : Inbound} {result : Except Error Unit} (h : Chronicle a s₀ hs s [])
    (hcomes : (a.process m).Comes s result u) : ∃ hs', Chronicle a s₀ hs' u [] := by
  obtain ⟨course, t, hreceive, hrest⟩ := Activity.comes_bind hcomes
  obtain ⟨rfl, rfl⟩ := Activity.comes_modifyGet.mp hreceive
  have hreceived := h.receive m
  cases hcourse : (a.receive m s).1 with
  | ended result =>
    rw [hcourse] at hrest
    obtain ⟨-, rfl⟩ := Activity.comes_pure.mp hrest
    exact ⟨_, hreceived⟩
  | serve m mapping =>
    rw [hcourse] at hrest
    exact hreceived.serve_of_comes hrest

end Chronicle

/-! ### What holds of an agent throughout -/

/-- The message that is handed over, if one is. -/
def Deed.message? : Deed → Option Inbound
  | submit m => some m
  | _ => none

/-- What can be said of the messages handed to an agent, of its state and of the requests at hand, whatever happens. -/
structure Agent.Narrates (a : Agent Obj) (P : List Inbound → State Obj → List Pending → Prop) : Prop where
  later : ∀ {ms s t hands}, P ms s hands → s.Later t → P ms t hands
  process : ∀ {ms s t m result}, P ms s [] → (a.process m).Comes s result t → P (ms ++ [m]) t []
  takeUp : ∀ {ms s}, P ms s [] →
    P ms { s with outstanding := s.outstanding.takeParked.2 } (s.outstanding.takeParked.1.map fun x => x.2.retry)
  drive : ∀ {ms s t p hands result}, P ms s (p :: hands) → (a.drive p).Comes s result t → P ms t hands
  expire : ∀ {ms s}, P ms s [] → P ms (Agent.expire s).2 []

namespace Agent.Narrates

open Activity (Timed)

variable {P : List Inbound → State Obj → List Pending → Prop} {ms ms' : List Inbound} {u : State Obj}
  (hP : a.Narrates P)
include hP

theorem driveAll : ∀ {parked : List (TransactionId × Pending)} {s u : State Obj} {result : Option Error},
    P ms s (parked.map fun x => x.2.retry) → (a.driveAll parked).Comes s result u → P ms u []
  | [], _, _, _, h, hcomes => by
    obtain ⟨-, rfl⟩ := Activity.comes_pure.mp hcomes
    exact h
  | (_, p) :: rest, _, _, _, h, hcomes => by
    obtain ⟨result, t, hfirst, hrest⟩ := Activity.comes_bind hcomes
    obtain ⟨later, v, hlater, hlast⟩ := Activity.comes_bind hrest
    have hall := driveAll (hP.drive h hfirst) hlater
    cases result with
    | ok result =>
      obtain ⟨-, rfl⟩ := Activity.comes_pure.mp hlast
      exact hall
    | error error =>
      obtain ⟨-, rfl⟩ := Activity.comes_pure.mp hlast
      exact hall

theorem takeUp_of_comes {result : Except Error Nat} (h : P ms s []) (hcomes : a.takeUp.Comes s result u) :
    P ms u [] := by
  obtain ⟨parked, t, htake, hrest⟩ := Activity.comes_bind hcomes
  obtain ⟨rfl, rfl⟩ := Activity.comes_modifyGet.mp htake
  obtain ⟨error, v, hdriven, hlast⟩ := Activity.comes_bind hrest
  have hall := hP.driveAll (hP.takeUp h) hdriven
  cases error with
  | none =>
    obtain ⟨-, rfl⟩ := Activity.comes_pure.mp hlast
    exact hall
  | some error =>
    obtain ⟨-, rfl⟩ := Activity.comes_pure.mp hlast
    exact hall

/-- What an agent does with nothing else under way comes to an end. -/
theorem run {s : Schedule Obj} (hs : s.Idle) {act : Doing Obj α} (hact : act.Timed)
    (h : ∀ result t, act.Comes s.state result t → P ms t []) :
    ∃ (enough : Nat) (u : Schedule Obj), u.Idle ∧ P ms u.state [] ∧ ∀ turns ≥ enough, (s.run turns act).2 = u := by
  obtain ⟨enough, result, t, u, hcomes, hu, hlater, hrun⟩ := Schedule.run_of_timed (hact s.state) hs
  exact ⟨enough, u, hu, hP.later (h result t hcomes) hlater,
    fun turns hturns => congrArg Prod.snd (hrun turns hturns)⟩

/-- It holds after whatever happens to an agent without tasks in the background, if it does where others take locks. -/
theorem perform (hinline : a.settings.maxConcurrent = 0) {s : Schedule Obj} (hidle : s.Idle)
    (h : P ms s.state []) {deed : Deed} (hrelock : ∀ registry locks, deed = .relock registry locks →
      ∀ ms s, P ms s [] → P ms (s.setLocks registry locks) []) :
    ∃ (enough : Nat) (u : Schedule Obj), u.Idle ∧ P (ms ++ deed.message?.toList) u.state [] ∧
      ∀ turns ≥ enough, deed.perform a turns s = u := by
  have hset {s : Schedule Obj} (hidle : s.Idle) {t : State Obj} (ht : P ms t []) :
      (s.withState t).Idle ∧ P ms (s.withState t).state [] :=
    ⟨(hidle.withState t).1, hP.later ht (hidle.later t)⟩
  have hnil : ms ++ [] = ms := List.append_nil ms
  cases deed with
  | submit m =>
    obtain ⟨enough, u, hu, hstory, hrun⟩ := hP.run hidle (Agent.timed_process m) fun _ _ => hP.process h
    refine ⟨enough, u, hu, hstory, fun turns hturns => ?_⟩
    rw [← hrun turns hturns, Deed.perform, Agent.submit, if_pos hinline]
  | takeUp => exact hP.run hidle Agent.timed_takeUp fun _ _ hcomes => hnil.symm ▸ hP.takeUp_of_comes h hcomes
  | expire =>
    obtain ⟨hu, hstory⟩ := hset hidle (hP.expire h)
    exact ⟨0, _, hu, hnil.symm ▸ hstory, fun _ _ => rfl⟩
  | sweep =>
    let swept : Schedule Obj := { s with swept := s.state.now }
    have hswept : swept.Idle := ⟨hidle.ready, hidle.waiters, hidle.backlog⟩
    obtain ⟨hu, hstory⟩ := hset hswept (s := swept) (hP.expire h)
    refine ⟨1, { swept.withState (Agent.expire s.state).2 with
      swept := (swept.withState (Agent.expire s.state).2).state.now }, ⟨hu.ready, hu.waiters, hu.backlog⟩,
      hnil.symm ▸ hstory, fun turns hturns => ?_⟩
    rw [Deed.perform, Agent.sweep, hidle.drain hturns]
    exact hu.drain hturns
  | drain => exact ⟨1, { s with swept := s.state.now }, ⟨hidle.ready, hidle.waiters, hidle.backlog⟩, hnil.symm ▸ h,
      fun turns hturns => hidle.drain hturns⟩
  | pass duration =>
    have hpassed : s.state.Later { s.state with now := s.state.now.plus duration } := ⟨_, s.state.released, rfl⟩
    obtain ⟨hu, hstory⟩ := hset hidle (hP.later h hpassed)
    exact ⟨0, _, hu, hnil.symm ▸ hstory, fun _ _ => rfl⟩
  | relock registry locks =>
    let relocked := s.state.setLocks registry locks
    have hnoted : relocked.Later (relocked.noteRelease registry) := ⟨relocked.now, _, rfl⟩
    obtain ⟨hu, hstory⟩ := hset hidle (hP.later (hrelock registry locks rfl _ _ h) hnoted)
    exact ⟨0, _, hu, hnil.symm ▸ hstory, fun _ _ => rfl⟩

/-- It holds after every run of an agent without tasks in the background, if it does where others take locks. -/
theorem of_deeds (hinline : a.settings.maxConcurrent = 0) : ∀ (deeds : List Deed) (ms : List Inbound)
    {s : Schedule Obj}, s.Idle → P ms s.state [] → (∀ registry locks, Deed.relock registry locks ∈ deeds →
      ∀ ms s, P ms s [] → P ms (s.setLocks registry locks) []) →
    ∃ (enough : Nat) (t : State Obj), P (ms ++ deeds.filterMap Deed.message?) t [] ∧
      ∀ turns ≥ enough, (a.performAll turns deeds s).state = t
  | [], ms, s, _, h, _ => ⟨0, s.state, (List.append_nil ms).symm ▸ h, fun _ _ => rfl⟩
  | deed :: deeds, ms, s, hidle, h, hrelock => by
    obtain ⟨enough, u, hu, hstory, hperform⟩ := hP.perform hinline hidle h
      fun registry locks (heq : deed = _) => hrelock registry locks (heq ▸ List.mem_cons_self)
    obtain ⟨enough', t, hlast, hrest⟩ := of_deeds hinline deeds _ hu hstory
      fun registry locks hmem => hrelock registry locks (List.mem_cons_of_mem _ hmem)
    have hmessages : ms ++ (deed :: deeds).filterMap Deed.message? =
        ms ++ deed.message?.toList ++ deeds.filterMap Deed.message? := by
      cases hm : deed.message? <;> simp [hm]
    refine ⟨max enough enough', t, hmessages ▸ hlast, fun turns hturns => ?_⟩
    rw [← hrest turns ((le_max_right _ _).trans hturns), ← hperform turns ((le_max_left _ _).trans hturns)]
    rfl

end Agent.Narrates

/-- Whatever happens to an agent can be told. -/
theorem narrates_chronicle : a.Narrates fun _ s hands => ∃ hs, Chronicle a s₀ hs s hands where
  later := fun ⟨hs, h⟩ ht => ⟨hs, h.later ht⟩
  process := fun ⟨_, h⟩ hcomes => h.process_of_comes hcomes
  takeUp := fun ⟨hs, h⟩ => ⟨hs, h.takeUp⟩
  drive := fun ⟨_, h⟩ hcomes => h.drive_of_comes hcomes
  expire := fun ⟨_, h⟩ => ⟨_, h.expire⟩

/-- Every run of an agent without tasks in the background has a story, if nobody else takes locks. -/
theorem chronicle_of_deeds (hinline : a.settings.maxConcurrent = 0) (deeds : List Deed) {hs : List Happening}
    {s : Schedule Obj} (hidle : s.Idle) (h : Chronicle a s₀ hs s.state [])
    (hdeeds : ∀ registry locks, Deed.relock registry locks ∉ deeds) :
    ∃ (enough : Nat) (hs' : List Happening) (t : State Obj), Chronicle a s₀ hs' t [] ∧
      ∀ turns ≥ enough, (a.performAll turns deeds s).state = t := by
  have htold : a.Narrates fun _ s hands => ∃ hs, Chronicle a s₀ hs s hands := narrates_chronicle
  obtain ⟨enough, t, ⟨hs', hstory⟩, hrun⟩ := htold.of_deeds hinline deeds [] hidle ⟨hs, h⟩
    fun registry locks hmem => absurd hmem (hdeeds registry locks)
  exact ⟨enough, hs', t, hstory, hrun⟩

end Responder
