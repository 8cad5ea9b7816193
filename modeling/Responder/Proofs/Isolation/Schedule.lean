import Responder.Proofs.Isolation.Blind

/-! Schedules of activities that do not see what a context does not see. Every turn of such a schedule leads to the same
    schedule, apart from what the context does not see, whether that is there or not (`Schedule.Blind.turn`); and so
    does running an activity in front, or all that is ready (`Schedule.Blind.run`, `Schedule.Blind.drain`). -/

namespace Responder

variable {Obj α : Type} {c : ContextName} {I : State Obj → Prop}

/-- What waits does not see what the context does not see, however its wait ends. -/
def Strand.Blind (c : ContextName) (I : State Obj → Prop) : Strand Obj → Prop
  | .front => True
  | .task resume => ∀ wakeup, Activity.Blind c I (resume wakeup) fun _ => True

def Job.Blind (c : ContextName) (I : State Obj → Prop) : Job Obj → Prop
  | .unlock .. => True
  | .start task | .proceed task => Activity.Blind c I task fun _ => True
  | .wake w => w.strand.Blind c I

namespace Schedule

/-- The schedule with its state as a context sees it. -/
def seenBy (s : Schedule Obj) (c : ContextName) : Schedule Obj := { s with state := s.state.seenBy c }

/-- Nothing that is under way sees what the context does not see. -/
structure Blind (c : ContextName) (I : State Obj → Prop) (s : Schedule Obj) : Prop where
  state : I s.state
  ready : ∀ job ∈ s.ready, job.Blind c I
  waiters : ∀ w ∈ s.waiters, w.strand.Blind c I
  backlog : ∀ task ∈ s.backlog, Activity.Blind c I task fun _ => True

namespace Blind

variable {s : Schedule Obj}

theorem push (h : s.Blind c I) {job : Job Obj} (hjob : job.Blind c I) : (s.push job).Blind c I :=
  ⟨h.state, List.forall_mem_append.mpr ⟨h.ready, List.forall_mem_singleton.mpr hjob⟩, h.waiters, h.backlog⟩

theorem next (h : s.Blind c I) {job : Job Obj} {ready : List (Job Obj)} (hready : s.ready = job :: ready) :
    job.Blind c I ∧ ({ s with ready } : Schedule Obj).Blind c I := by
  have hall := h.ready
  rw [hready, List.forall_mem_cons] at hall
  exact ⟨hall.1, h.state, hall.2, h.waiters, h.backlog⟩

/-- Some of those that wait are woken. -/
theorem wake (h : s.Blind c I) {woken left : List (Waiter Obj)} (hwoken : ∀ w ∈ woken, w ∈ s.waiters)
    (hleft : ∀ w ∈ left, w ∈ s.waiters) :
    ({ s with ready := s.ready ++ woken.map .wake, waiters := left } : Schedule Obj).Blind c I := by
  refine ⟨h.state, List.forall_mem_append.mpr ⟨h.ready, fun job hjob => ?_⟩, fun w hw => h.waiters w (hleft w hw),
    h.backlog⟩
  obtain ⟨w, hw, rfl⟩ := List.mem_map.mp hjob
  exact h.waiters w (hwoken w hw)

theorem withState (hI : Lasting I) (h : s.Blind c I) {state : State Obj} (hstate : I state) :
    (s.seenBy c).withState (state.seenBy c) = (s.withState state).seenBy c ∧ (s.withState state).Blind c I := by
  have hwoken : ∀ (released : List Nat) (s : Schedule Obj), s.Blind c I →
      released.foldl wakeAll (s.seenBy c) = (released.foldl wakeAll s).seenBy c ∧
        (released.foldl wakeAll s).Blind c I := by
    intro released
    induction released with
    | nil => exact fun s hs => ⟨rfl, hs⟩
    | cons registry released ih =>
      exact fun s hs => ih (s.wakeAll registry)
        (hs.wake (fun _ hw => (List.mem_filter.mp hw).1) fun _ hw => (List.mem_filter.mp hw).1)
  exact hwoken state.released { s with state := { state with released := [] } }
    ⟨hI.locks (s := state) rfl hstate, h.ready, h.waiters, h.backlog⟩

theorem wait (h : s.Blind c I) {w : Waiter Obj} (hw : w.strand.Blind c I) :
    ({ s with waiters := s.waiters ++ [w] } : Schedule Obj).Blind c I :=
  ⟨h.state, h.ready, List.forall_mem_append.mpr ⟨h.waiters, List.forall_mem_singleton.mpr hw⟩, h.backlog⟩

theorem handOver (h : s.Blind c I) : (s.seenBy c).handOver = s.handOver.seenBy c ∧ s.handOver.Blind c I := by
  obtain ⟨state, limit, ready, waiters, _ | ⟨task, backlog⟩, running, swept⟩ := s
  · exact ⟨rfl, h.state, h.ready, h.waiters, h.backlog⟩
  · obtain ⟨htask, hbacklog⟩ := List.forall_mem_cons.mp h.backlog
    have hleft : ({ state, limit, ready, waiters, backlog, running, swept } : Schedule Obj).Blind c I :=
      ⟨h.state, h.ready, h.waiters, hbacklog⟩
    have hjob : (Job.proceed task).Blind c I := htask
    exact ⟨rfl, hleft.push hjob⟩

theorem takeIn (hI : Lasting I) (h : s.Blind c I) {p : Progress (State Obj) Unit} (hp : p.Blind c I fun _ => True) :
    (s.seenBy c).takeIn (p.seenBy c) = (s.takeIn p).seenBy c ∧ (s.takeIn p).Blind c I := by
  obtain ⟨hseen, hsettled⟩ := hp.settle s.swept
  have hswept : (s.seenBy c).swept = s.swept := rfl
  rw [Schedule.takeIn, Schedule.takeIn, hswept, hseen]
  cases hprogress : p.settle s.swept with
  | done a state =>
    rw [hprogress] at hsettled
    obtain ⟨heq, hblind⟩ := h.withState hI hsettled.1
    obtain ⟨hseen, hleft⟩ := hblind.handOver
    exact ⟨(congrArg Schedule.handOver heq).trans hseen, hleft⟩
  | waiting wait state resume =>
    rw [hprogress] at hsettled
    obtain ⟨heq, hblind⟩ := h.withState hI hsettled.1
    exact ⟨congrArg (Schedule.enqueue · wait (.task resume)) heq, hblind.wait hsettled.2⟩

theorem attempt (hI : Lasting I) (h : s.Blind c I) {w : Waiter Obj} (hw : w.strand.Blind c I) :
    (s.seenBy c).attempt w = ((s.attempt w).1, (s.attempt w).2.seenBy c) ∧ (s.attempt w).2.Blind c I := by
  have hseen := s.state.tryLock_seenBy c w.wait.registry w.wait.owner w.wait.object
  have hkept := hI.locks (s.state.bare_tryLock w.wait.registry w.wait.owner w.wait.object) h.state
  have hstate : (s.seenBy c).state = s.state.seenBy c := rfl
  have hswept : (s.seenBy c).swept = s.swept := rfl
  unfold Schedule.attempt
  rw [hstate, hseen, hswept]
  generalize s.state.tryLock w.wait.registry w.wait.owner w.wait.object = outcome at hkept
  obtain ⟨_ | _, state⟩ := outcome
  · by_cases hlate : w.deadline.any (·.isBy s.swept) = true
    · simp only [if_pos hlate]
      exact ⟨trivial, h⟩
    · by_cases hexpired : w.wait.expiry.any (·.isBy s.swept) = true
      · simp only [if_neg hlate, if_pos hexpired]
        exact ⟨trivial, h⟩
      · simp only [if_neg hlate, if_neg hexpired]
        exact ⟨rfl, h.wait hw⟩
  · exact ⟨rfl, hkept, h.ready, h.waiters, h.backlog⟩

/-- A task begins or goes on. -/
theorem proceed (hI : Lasting I) (h : s.Blind c I) {act : Doing Obj Unit}
    (hact : Activity.Blind c I act fun _ => True) :
    (s.seenBy c).takeIn (act (s.state.seenBy c)) = (s.takeIn (act s.state)).seenBy c ∧
      (s.takeIn (act s.state)).Blind c I := by
  obtain ⟨hseen, hblind⟩ := hact s.state h.state
  rw [hseen]
  exact h.takeIn hI hblind

/-- One turn, whatever it ends. -/
theorem turn (hI : Lasting I) (h : s.Blind c I) {job : Job Obj} (hjob : job.Blind c I) :
    (s.seenBy c).turn job = ((s.turn job).1, (s.turn job).2.seenBy c) ∧ (s.turn job).2.Blind c I := by
  cases job with
  | unlock registry owner object =>
    have hunlocked := hI.locks (s.state.bare_unlock registry owner object) h.state
    obtain ⟨heq, hblind⟩ := h.withState hI hunlocked
    have hseen := congrArg Prod.snd (s.state.unlock_seenBy c registry owner object)
    exact ⟨congrArg (Prod.mk none) ((congrArg (s.seenBy c).withState hseen).trans heq), hblind⟩
  | start task =>
    have hrunning : (s.seenBy c).running = s.running := rfl
    have hlimit : (s.seenBy c).limit = s.limit := rfl
    simp only [Schedule.turn, hrunning, hlimit]
    by_cases hfree : s.running < s.limit
    · simp only [if_pos hfree]
      have hbegun : ({ s with running := s.running + 1 } : Schedule Obj).Blind c I :=
        ⟨h.state, h.ready, h.waiters, h.backlog⟩
      obtain ⟨heq, hblind⟩ := hbegun.proceed hI hjob
      exact ⟨congrArg (Prod.mk none) heq, hblind⟩
    · simp only [if_neg hfree]
      exact ⟨rfl, h.state, h.ready, h.waiters,
        List.forall_mem_append.mpr ⟨h.backlog, List.forall_mem_singleton.mpr hjob⟩⟩
  | proceed task =>
    obtain ⟨heq, hblind⟩ := h.proceed hI hjob
    exact ⟨congrArg (Prod.mk none) heq, hblind⟩
  | wake w =>
    obtain ⟨hseen, hblind⟩ := h.attempt hI (w := w) hjob
    simp only [Schedule.turn]
    rw [hseen]
    generalize s.attempt w = outcome at hblind
    obtain ⟨_ | wakeup, t⟩ := outcome
    · exact ⟨rfl, hblind⟩
    · have hstrand : w.strand.Blind c I := hjob
      cases hw : w.strand with
      | front => exact ⟨rfl, hblind⟩
      | task resume =>
        rw [hw] at hstrand
        obtain ⟨heq, hleft⟩ := hblind.proceed hI (hstrand wakeup)
        exact ⟨congrArg (Prod.mk none) heq, hleft⟩

theorem elapse (hI : Lasting I) (h : s.Blind c I) (t : Instant) : (s.elapse t).Blind c I := by
  let now := s.state.now.later t
  have htimed : ({ s with state := { s.state with now }, swept := now } : Schedule Obj).Blind c I :=
    ⟨hI.time _ h.state, h.ready, h.waiters, h.backlog⟩
  exact htimed.wake (fun _ hw => (List.mem_filter.mp (List.mem_mergeSort.mp hw)).1)
    fun _ hw => (List.mem_filter.mp hw).1

theorem dropFront (h : s.Blind c I) : s.dropFront.Blind c I :=
  ⟨h.state, fun job hjob => h.ready job (List.mem_filter.mp hjob).1,
    fun w hw => h.waiters w (List.mem_filter.mp hw).1, h.backlog⟩

variable {post : α → Prop}

/-- What runs until the activity in front ends comes to the same result. -/
theorem follow (hI : Lasting I) : ∀ (turns : Nat) (resume : Wakeup → State Obj → Progress (State Obj) α)
    (s : Schedule Obj), s.Blind c I → (∀ wakeup, Activity.Blind c I (resume wakeup) post) →
      (s.seenBy c).follow turns resume = ((s.follow turns resume).1, (s.follow turns resume).2.seenBy c) ∧
        (s.follow turns resume).2.Blind c I
  | 0, _, s, h, _ => ⟨rfl, h.dropFront⟩
  | turns + 1, resume, s, h, hresume => by
    have hready : (s.seenBy c).ready = s.ready := rfl
    have hdue : (s.seenBy c).nextDue? = s.nextDue? := rfl
    simp only [Schedule.follow]
    rw [hready, hdue]
    split
    · split
      · exact ⟨rfl, h.dropFront⟩
      · next t _ => exact follow hI turns resume _ (h.elapse hI t) hresume
    · next job ready hjobs =>
      obtain ⟨hjob, hleft⟩ := h.next hjobs
      obtain ⟨heq, hblind⟩ := hleft.turn hI hjob
      rw [show ({ s.seenBy c with ready } : Schedule Obj) = ({ s with ready } : Schedule Obj).seenBy c from rfl, heq]
      generalize ({ s with ready } : Schedule Obj).turn job = outcome at hblind
      obtain ⟨_ | wakeup, t⟩ := outcome
      · exact follow hI turns resume t hblind hresume
      · obtain ⟨hseen, hprogress⟩ := hresume wakeup t.state hblind.state
        obtain ⟨hsettle, hsettled⟩ := hprogress.settle t.swept
        dsimp only
        rw [show (t.seenBy c).state = t.state.seenBy c from rfl, show (t.seenBy c).swept = t.swept from rfl, hseen,
          hsettle]
        cases hp : (resume wakeup t.state).settle t.swept with
        | done a state =>
          rw [hp] at hsettled
          obtain ⟨heq, hdone⟩ := hblind.withState hI hsettled.1
          exact ⟨congrArg (Prod.mk (some a)) heq, hdone⟩
        | waiting wait state resume' =>
          rw [hp] at hsettled
          obtain ⟨heq, hwaits⟩ := hblind.withState hI hsettled.1
          dsimp only [Progress.seenBy]
          rw [heq]
          exact follow hI turns resume' ((t.withState state).enqueue wait .front) (hwaits.wait trivial) hsettled.2

/-- An activity in front, run to its end. -/
theorem run (hI : Lasting I) (h : s.Blind c I) {act : Doing Obj α} (hact : Activity.Blind c I act post) (turns : Nat) :
    (s.seenBy c).run turns act = ((s.run turns act).1, (s.run turns act).2.seenBy c) ∧
      (s.run turns act).2.Blind c I := by
  obtain ⟨hseen, hprogress⟩ := hact s.state h.state
  obtain ⟨hsettle, hsettled⟩ := hprogress.settle s.swept
  unfold Schedule.run
  rw [show (s.seenBy c).state = s.state.seenBy c from rfl, show (s.seenBy c).swept = s.swept from rfl, hseen, hsettle]
  cases hp : (act s.state).settle s.swept with
  | done a state =>
    rw [hp] at hsettled
    obtain ⟨heq, hdone⟩ := h.withState hI hsettled.1
    exact ⟨congrArg (Prod.mk (some a)) heq, hdone⟩
  | waiting wait state resume =>
    rw [hp] at hsettled
    obtain ⟨heq, hwaits⟩ := h.withState hI hsettled.1
    dsimp only [Progress.seenBy]
    rw [heq]
    exact follow hI turns resume ((s.withState state).enqueue wait .front) (hwaits.wait trivial) hsettled.2

theorem drain (hI : Lasting I) : ∀ (turns : Nat) (s : Schedule Obj), s.Blind c I →
    (s.seenBy c).drain turns = (s.drain turns).seenBy c ∧ (s.drain turns).Blind c I
  | 0, s, h => ⟨rfl, h⟩
  | turns + 1, s, h => by
    have hready : (s.seenBy c).ready = s.ready := rfl
    have hwaiters : (s.seenBy c).waiters = s.waiters := rfl
    have hnow : (s.seenBy c).state.now = s.state.now := rfl
    simp only [Schedule.drain, hready, hwaiters, hnow]
    split
    · next job ready hjobs =>
      obtain ⟨hjob, hleft⟩ := h.next hjobs
      obtain ⟨heq, hblind⟩ := hleft.turn hI hjob
      show Schedule.drain turns ((({ s with ready } : Schedule Obj).seenBy c).turn job).2 = _ ∧ _
      rw [heq]
      exact drain hI turns _ hblind
    · split
      · exact drain hI turns _ (h.elapse hI _)
      · exact ⟨rfl, h.state, h.ready, h.waiters, h.backlog⟩

end Blind
end Schedule
end Responder
