import Responder.Proofs.Lookup
import Responder.Waiting.Schedule

/-! Schedules keep what their activities keep. Something that holds of the state, and depends neither on locks nor
    on the time (`Lasting`), is kept by every turn of a schedule all of whose activities keep it (`Schedule.Kept`):
    by those that are ready, by those that wait, and by the one in front (`Schedule.Kept.run`,
    `Schedule.Kept.drain`). -/

namespace Responder

variable {Obj α β : Type} {I : State Obj → Prop}

/-- Something that holds of the state whatever locks are taken, and whatever time it is. -/
structure Lasting (I : State Obj → Prop) : Prop where
  locks : ∀ {s t : State Obj}, t.bare = s.bare → I s → I t
  time : ∀ {s : State Obj} (now : Instant), I s → I { s with now }

theorem Lasting.steady (hI : Lasting I) (number : Nat) : Steady (fun _ => I) number I :=
  ⟨fun hlocks => hI.locks hlocks.bare, fun ht _ => ht⟩

/-! ### Activities -/

/-- What an activity has come to keeps something: it holds wherever the activity waits and in the end, as long as the
others keep it too. -/
def Progress.Keeps (I : State Obj → Prop) (p : Progress (State Obj) α) : Prop := p.Ensures (fun _ => I) I fun _ => I

/-- An activity keeps something. -/
def Keeps (I : State Obj → Prop) (act : Doing Obj α) : Prop := ∀ s, I s → (act s).Keeps I

namespace Progress.Keeps

variable {p : Progress (State Obj) α}

theorem settle (h : p.Keeps I) (now : Instant) : (p.settle now).Keeps I := by
  induction p with
  | done a s => exact h
  | waiting wait s resume ih =>
    simp only [Progress.settle]
    split
    · exact ih .expired s (h.2 .expired s h.1)
    · exact h

end Progress.Keeps

/-- What is ensured of an activity, unless it is given up. -/
theorem Activity.ensures_before {rely : State Obj → State Obj → Prop} {here : State Obj → Prop}
    {ends : α → State Obj → Prop} {after : State Obj → Prop} (hgiven : ∀ s t, here s → rely s t → after t)
    {act : Doing Obj α} {s : State Obj} (h : act.Ensures rely here s ends) (expiry : Instant) :
    (act.before expiry).Ensures rely here s fun result t =>
      match result with
      | some a => ends a t
      | none => after t := by
  have hbefore (p : Progress (State Obj) α) (hp : p.Ensures rely here ends) :
      (p.before expiry).Ensures rely here fun result t =>
        match result with
        | some a => ends a t
        | none => after t := by
    induction p with
    | done a s => exact hp
    | waiting wait s resume ih =>
      simp only [Progress.before, Progress.ensures_waiting]
      refine ⟨hp.1, fun wakeup t ht => ?_⟩
      cases wakeup with
      | expired => exact hgiven s t hp.1 ht
      | granted => exact ih .granted t (hp.2 .granted t ht)
      | timedOut => exact ih .timedOut t (hp.2 .timedOut t ht)
  exact hbefore (act s) h

/-- What is ensured of an activity, it yields if it is not given up. -/
theorem Activity.Ensures.of_yields_before {rely : State Obj → State Obj → Prop} {here : State Obj → Prop}
    {ends : α → State Obj → Prop} {act : Doing Obj α} {s t : State Obj} {a : α} {expiry : Instant}
    (h : act.Ensures rely here s ends) (hyields : (act.before expiry).Yields rely s (some a) t) : ends a t :=
  (Activity.ensures_iff.mp (Activity.ensures_before (show ∀ s t, here s → rely s t → True from fun _ _ _ _ => trivial)
    h expiry)).2 _ _ hyields

namespace Keeps

theorem pure (a : α) : Keeps I (Pure.pure a : Doing Obj α) := fun _ => id

theorem bind {act : Doing Obj α} {f : α → Doing Obj β} (h : Keeps I act) (hf : ∀ a, Keeps I (f a)) :
    Keeps I (act >>= f) :=
  fun s hs => Progress.Ensures.bind (h s hs) fun a t => hf a t

end Keeps

/-! ### Schedules -/

/-- What waits keeps something, however its wait ends. -/
def Strand.Keeps (I : State Obj → Prop) : Strand Obj → Prop
  | .front => True
  | .task resume => ∀ wakeup s, I s → (resume wakeup s).Keeps I

def Job.Keeps (I : State Obj → Prop) : Job Obj → Prop
  | .unlock .. => True
  | .start task | .proceed task => Responder.Keeps I task
  | .wake w => w.strand.Keeps I

namespace Schedule

/-- Something holds of the state, and everything that is under way keeps it. -/
structure Kept (I : State Obj → Prop) (s : Schedule Obj) : Prop where
  state : I s.state
  ready : ∀ job ∈ s.ready, job.Keeps I
  waiters : ∀ w ∈ s.waiters, w.strand.Keeps I
  backlog : ∀ task ∈ s.backlog, Keeps I task

namespace Kept

variable {s : Schedule Obj}

theorem push (h : s.Kept I) {job : Job Obj} (hjob : job.Keeps I) : (s.push job).Kept I :=
  ⟨h.state, List.forall_mem_append.mpr ⟨h.ready, List.forall_mem_singleton.mpr hjob⟩, h.waiters, h.backlog⟩

theorem next (h : s.Kept I) {job : Job Obj} {ready : List (Job Obj)} (hready : s.ready = job :: ready) :
    job.Keeps I ∧ ({ s with ready } : Schedule Obj).Kept I := by
  have hall := h.ready
  rw [hready, List.forall_mem_cons] at hall
  exact ⟨hall.1, h.state, hall.2, h.waiters, h.backlog⟩

/-- Some of those that wait are woken. -/
theorem wake (h : s.Kept I) {woken left : List (Waiter Obj)} (hwoken : ∀ w ∈ woken, w ∈ s.waiters)
    (hleft : ∀ w ∈ left, w ∈ s.waiters) :
    ({ s with ready := s.ready ++ woken.map .wake, waiters := left } : Schedule Obj).Kept I := by
  refine ⟨h.state, List.forall_mem_append.mpr ⟨h.ready, fun job hjob => ?_⟩, fun w hw => h.waiters w (hleft w hw),
    h.backlog⟩
  obtain ⟨w, hw, rfl⟩ := List.mem_map.mp hjob
  exact h.waiters w (hwoken w hw)

theorem wakeAll (h : s.Kept I) (registry : Nat) : (s.wakeAll registry).Kept I :=
  h.wake (fun _ hw => (List.mem_filter.mp hw).1) fun _ hw => (List.mem_filter.mp hw).1

theorem withState (hI : Lasting I) (h : s.Kept I) {state : State Obj} (hstate : I state) :
    (s.withState state).Kept I := by
  have hwoken : ∀ (released : List Nat) (s : Schedule Obj), s.Kept I → (released.foldl Schedule.wakeAll s).Kept I := by
    intro released
    induction released with
    | nil => exact fun s hs => hs
    | cons registry released ih => exact fun s hs => ih _ (hs.wakeAll registry)
  exact hwoken _ _ ⟨hI.locks (s := state) rfl hstate, h.ready, h.waiters, h.backlog⟩

theorem wait (h : s.Kept I) {w : Waiter Obj} (hw : w.strand.Keeps I) :
    ({ s with waiters := s.waiters ++ [w] } : Schedule Obj).Kept I :=
  ⟨h.state, h.ready, List.forall_mem_append.mpr ⟨h.waiters, List.forall_mem_singleton.mpr hw⟩, h.backlog⟩

theorem handOver (h : s.Kept I) : s.handOver.Kept I := by
  unfold Schedule.handOver
  split
  · next task backlog hbacklog =>
    have hall := h.backlog
    rw [hbacklog, List.forall_mem_cons] at hall
    exact push (s := { s with backlog }) ⟨h.state, h.ready, h.waiters, hall.2⟩ hall.1
  · exact ⟨h.state, h.ready, h.waiters, h.backlog⟩

theorem takeIn (hI : Lasting I) (h : s.Kept I) {p : Progress (State Obj) Unit} (hp : p.Keeps I) :
    (s.takeIn p).Kept I := by
  have hsettled := hp.settle s.swept
  unfold Schedule.takeIn
  split
  · next state heq =>
    rw [heq] at hsettled
    exact (h.withState hI hsettled).handOver
  · next wait state resume heq =>
    rw [heq] at hsettled
    exact (h.withState hI hsettled.1).wait hsettled.2

theorem attempt (hI : Lasting I) (h : s.Kept I) {w : Waiter Obj} (hw : w.strand.Keeps I) :
    (s.attempt w).2.Kept I := by
  unfold Schedule.attempt
  split
  · next state heq =>
    refine ⟨hI.locks ?_ h.state, h.ready, h.waiters, h.backlog⟩
    exact (congrArg (fun taken => taken.2.bare) heq).symm.trans (s.state.bare_tryLock _ _ _)
  · split
    · exact h
    · split
      · exact h
      · exact h.wait hw

/-- One turn, whatever it ends. -/
theorem turn (hI : Lasting I) (h : s.Kept I) {job : Job Obj} (hjob : job.Keeps I) : (s.turn job).2.Kept I := by
  cases job with
  | unlock registry owner object => exact h.withState hI (hI.locks (s.state.bare_unlock _ _ _) h.state)
  | start task =>
    simp only [Schedule.turn]
    split
    · exact takeIn (s := { s with running := s.running + 1 }) hI ⟨h.state, h.ready, h.waiters, h.backlog⟩
        (hjob _ h.state)
    · exact ⟨h.state, h.ready, h.waiters, List.forall_mem_append.mpr ⟨h.backlog, List.forall_mem_singleton.mpr hjob⟩⟩
  | proceed task => exact h.takeIn hI (hjob _ h.state)
  | wake w =>
    have hattempt := h.attempt hI (w := w) hjob
    simp only [Schedule.turn]
    split
    · next t heq =>
      rw [heq] at hattempt
      exact hattempt
    · next wakeup t heq _ =>
      rw [heq] at hattempt
      exact hattempt
    · next wakeup t resume heq hstrand =>
      rw [heq] at hattempt
      have hresume : (Strand.task resume).Keeps I := hstrand ▸ hjob
      exact hattempt.takeIn hI (hresume wakeup t.state hattempt.state)

theorem elapse (hI : Lasting I) (h : s.Kept I) (t : Instant) : (s.elapse t).Kept I := by
  let now := s.state.now.later t
  have htimed : ({ s with state := { s.state with now }, swept := now } : Schedule Obj).Kept I :=
    ⟨hI.time _ h.state, h.ready, h.waiters, h.backlog⟩
  exact htimed.wake (fun _ hw => (List.mem_filter.mp (List.mem_mergeSort.mp hw)).1)
    fun _ hw => (List.mem_filter.mp hw).1

theorem dropFront (h : s.Kept I) : s.dropFront.Kept I :=
  ⟨h.state, fun job hjob => h.ready job (List.mem_filter.mp hjob).1,
    fun w hw => h.waiters w (List.mem_filter.mp hw).1, h.backlog⟩

theorem follow (hI : Lasting I) : ∀ (turns : Nat) (resume : Wakeup → State Obj → Progress (State Obj) α)
    (s : Schedule Obj), s.Kept I → (∀ wakeup t, I t → (resume wakeup t).Keeps I) →
      (s.follow turns resume).2.Kept I
  | 0, _, s, h, _ => h.dropFront
  | turns + 1, resume, s, h, hresume => by
    simp only [Schedule.follow]
    split
    · split
      · exact h.dropFront
      · next t _ => exact follow hI turns resume _ (h.elapse hI t) hresume
    · next job ready hready =>
      obtain ⟨hjob, hleft⟩ := h.next hready
      have hturn := hleft.turn hI hjob
      split
      · next heq =>
        rw [heq] at hturn
        exact follow hI turns resume _ hturn hresume
      · next wakeup t heq =>
        rw [heq] at hturn
        have hsettled := (hresume wakeup t.state hturn.state).settle t.swept
        split
        · next a state hdone =>
          rw [hdone] at hsettled
          exact hturn.withState hI hsettled
        · next wait state resume' hwait =>
          rw [hwait] at hsettled
          exact follow hI turns resume' _ ((hturn.withState hI hsettled.1).wait trivial) hsettled.2

/-- An activity in front, run to its end. -/
theorem run (hI : Lasting I) (h : s.Kept I) {act : Doing Obj α} (hact : Keeps I act) (turns : Nat) :
    (s.run turns act).2.Kept I := by
  have hsettled := (hact s.state h.state).settle s.swept
  unfold Schedule.run
  split
  · next a state hdone =>
    rw [hdone] at hsettled
    exact h.withState hI hsettled
  · next wait state resume hwait =>
    rw [hwait] at hsettled
    exact follow hI turns resume _ ((h.withState hI hsettled.1).wait trivial) hsettled.2

theorem drain (hI : Lasting I) : ∀ (turns : Nat) (s : Schedule Obj), s.Kept I → (s.drain turns).Kept I
  | 0, s, h => h
  | turns + 1, s, h => by
    simp only [Schedule.drain]
    split
    · next job ready hready =>
      obtain ⟨hjob, hleft⟩ := h.next hready
      exact drain hI turns _ (hleft.turn hI hjob)
    · split
      · exact drain hI turns _ (h.elapse hI _)
      · exact ⟨h.state, h.ready, h.waiters, h.backlog⟩

end Kept
end Schedule
end Responder
