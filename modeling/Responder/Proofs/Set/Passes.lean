import Responder.Proofs.Items
import Responder.Proofs.Set.Turn

/-! Whatever the service does to a request that writes is a sequence of turns (`Passes.ensures`), so what
    every turn keeps is kept by the service. A pass over the items of a phase serves them in their order
    until one is deferred or, early on, has an error; a drive goes through no more phases than there are,
    so it ends with the request complete or with an item deferred. -/

namespace Responder.Set

variable {Obj : Type} [ManagedObject Obj]

/-! ### A pass over the items of a phase -/

section Pass
variable {S : Scene Obj} {r : Request} {error : Option Error} {s t : State Obj} {done rest : List Item} {item : Item}

omit [ManagedObject Obj] in
theorem Passing.next (h : Passing S r done (item :: rest)) (hc : item.complete = true) :
    Passing S r (done ++ [item]) rest where
  who := h.who
  items := by rw [h.items, List.append_assoc, List.singleton_append]
  behind i hi := by
    rcases List.mem_append.mp hi with hi | hi
    · exact h.behind i hi
    · exact List.mem_singleton.mp hi ▸ hc
  rested := h.rested

omit [ManagedObject Obj] in
theorem Passing.replace (h : Passing S r done (item :: rest)) {item' : Item} (hd : item'.deferred = false) :
    Passing S { r with items := done ++ item' :: rest } done (item' :: rest) where
  who := h.who
  items := rfl
  behind := h.behind
  rested i hi := by
    have hrested := h.rested i
    simp only [h.items, List.mem_append, List.mem_cons] at hi hrested
    rcases hi with hi | rfl | hi
    · exact hrested (Or.inl hi)
    · exact hd
    · exact hrested (Or.inr (Or.inr hi))

/-- What a pass from a moment leaves behind: turns lead to it, and either an item was deferred, or none was
and every item is over unless the request gives the phase up. -/
structure After (S : Scene Obj) (m : Moment Obj) (done : List Item) (pass : Pass) (t : State Obj) : Prop where
  turns : Turns S m ⟨{ m.request with items := done ++ pass.items }, m.error.or pass.error, t⟩
  paused : pass.paused = true → ∃ i ∈ pass.items, i.deferred = true
  rested : pass.paused = false → ∀ i ∈ done ++ pass.items, i.deferred = false
  closed : pass.paused = false →
    (∀ i ∈ pass.items, i.complete = true) ∨ GivesUp { m.request with items := done ++ pass.items }

theorem After.stop (h : Passing S r done rest) (hclose : (∀ i ∈ rest, i.complete = true) ∨ GivesUp r) :
    After S ⟨r, error, s⟩ done { items := rest } s := by
  have hr : { r with items := done ++ rest } = r := by rw [← h.items]
  refine ⟨?_, by simp, fun _ => h.items ▸ h.rested, fun _ => ?_⟩
  · simp only [hr, Option.or_none]
    exact .refl
  · simpa only [hr] using hclose

/-- A pass goes on behind an item that was over before. -/
theorem After.skip {pass : Pass} (hc : item.complete = true) (h : After S ⟨r, error, s⟩ (done ++ [item]) pass t) :
    After S ⟨r, error, s⟩ done (pass.behind item none) t := by
  obtain ⟨hturns, hpaused, hrested, hclose⟩ := h
  simp only [List.append_assoc, List.singleton_append] at hturns hrested hclose
  refine ⟨hturns, fun hp => ?_, hrested, fun hp => (hclose hp).imp (fun hall i hi => ?_) id⟩
  · obtain ⟨i, hi, hd⟩ := hpaused hp
    exact ⟨i, List.mem_cons_of_mem _ hi, hd⟩
  · rcases List.mem_cons.mp hi with rfl | hi
    · exact hc
    · exact hall i hi

/-- A pass goes on behind an item that was served. -/
theorem After.step {item' : Item} {later : Option Error} {u : State Obj} {pass : Pass}
    (hturn : Turn S ⟨r, error, s⟩ ⟨{ r with items := done ++ item' :: rest }, error.or later, t⟩)
    (hc : item'.complete = true)
    (h : After S ⟨{ r with items := done ++ item' :: rest }, error.or later, t⟩ (done ++ [item']) pass u) :
    After S ⟨r, error, s⟩ done (pass.behind item' later) u := by
  obtain ⟨hturns, hpaused, hrested, hclose⟩ := h
  simp only [List.append_assoc, List.singleton_append, Option.or_assoc] at hturns hrested hclose
  refine ⟨.head hturn hturns, fun hp => ?_, hrested, fun hp => (hclose hp).imp (fun hall i hi => ?_) id⟩
  · obtain ⟨i, hi, hd⟩ := hpaused hp
    exact ⟨i, List.mem_cons_of_mem _ hi, hd⟩
  · rcases List.mem_cons.mp hi with rfl | hi
    · exact hc
    · exact hall i hi

/-- A pass ends at an item that is deferred. -/
theorem After.pause {item' : Item} (hturn : Turn S ⟨r, error, s⟩ ⟨{ r with items := done ++ item' :: rest }, error, t⟩)
    (hd : item'.deferred = true) : After S ⟨r, error, s⟩ done { items := item' :: rest, paused := true } t := by
  refine ⟨?_, fun _ => ⟨item', List.mem_cons_self, hd⟩, by simp, by simp⟩
  simp only [Option.or_none]
  exact .single hturn

/-- A pass ends at an item that has an error. -/
theorem After.fail {item' : Item} (h : Passing S r done (item :: rest))
    (hphase : r.phase = .prepare ∨ r.phase = .commit)
    (hturn : Turn S ⟨r, error, s⟩ ⟨{ r with items := done ++ item' :: rest }, error, t⟩)
    (hd : item'.deferred = false) (he : item'.hasError = true) :
    After S ⟨r, error, s⟩ done { items := item' :: rest } t := by
  refine ⟨?_, by simp, fun _ => (h.replace hd).rested, fun _ => Or.inr ⟨hphase, ?_⟩⟩
  · simp only [Option.or_none]
    exact .single hturn
  · simp [Request.hasError, he]

theorem step_ensures {next : Doing Obj Pass} {item' : Item} {later : Option Error} (hc : item'.complete = true)
    (hturn : Turn S ⟨r, error, s⟩ ⟨{ r with items := done ++ item' :: rest }, error.or later, t⟩)
    (hnext : next.Ensures S.rely (Waits S ⟨{ r with items := done ++ item' :: rest }, error.or later, t⟩) t
      (After S ⟨{ r with items := done ++ item' :: rest }, error.or later, t⟩ (done ++ [item']))) :
    next.Ensures S.rely (Waits S ⟨r, error, s⟩) t
      fun pass u => After S ⟨r, error, s⟩ done (pass.behind item' later) u :=
  hnext.mono (fun _ => Waits.after (.single hturn)) fun _ _ => After.step hturn hc

/-- After an item was called, the pass is broken off if the item is deferred, and goes on otherwise. -/
theorem settle_ensures {status : Status} (close : Item → Item) {called : Item × Except Fault Bool}
    (next : Item → Doing Obj Pass) (hclose : ∀ i, (close i).complete = true ∧ (close i).deferred = false)
    (hturn : Turn S ⟨r, error, s⟩ ⟨{ r with items := done ++ (settle S.policy status close called).1 :: rest },
      error.or (settle S.policy status close called).2, t⟩)
    (hnext : ∀ item' later, item'.complete = true → item'.deferred = false →
      (next item').Ensures S.rely (Waits S ⟨{ r with items := done ++ item' :: rest }, error.or later, t⟩) t
        (After S ⟨{ r with items := done ++ item' :: rest }, error.or later, t⟩ (done ++ [item']))) :
    (match called.2 with
      | .ok _ =>
        if called.1.deferred then return { items := called.1 :: rest, paused := true }
        else return (← next (close called.1)).behind (close called.1) none
      | .error fault =>
        return (← next (S.policy.report called.1 status fault).1).behind (S.policy.report called.1 status fault).1
          (S.policy.report called.1 status fault).2 : Doing Obj Pass).Ensures S.rely (Waits S ⟨r, error, s⟩) t
            (After S ⟨r, error, s⟩ done) := by
  have goesOn (item' : Item) (later : Option Error) (hc : item'.complete = true) (hd : item'.deferred = false)
      (hturn : Turn S ⟨r, error, s⟩ ⟨{ r with items := done ++ item' :: rest }, error.or later, t⟩) :
      (do return (← next item').behind item' later : Doing Obj Pass).Ensures S.rely (Waits S ⟨r, error, s⟩) t
        (After S ⟨r, error, s⟩ done) :=
    Activity.ensures_bind.mpr (step_ensures hc hturn (hnext item' later hc hd))
  obtain ⟨i, fault | _⟩ := called
  · exact goesOn _ _ rfl rfl hturn
  · cases hd : i.deferred
    · simp only [settle, hd, Bool.false_eq_true, if_false] at hturn ⊢
      exact goesOn _ _ (hclose i).1 (hclose i).2 hturn
    · simp only [settle, hd, if_true, Option.or_none] at hturn ⊢
      exact After.pause hturn hd

end Pass

/-! ### The passes of each phase -/

section Phases
variable {S : Scene Obj}

theorem isError_absence (q : Query) (o : Oid) : (absence q o).isError = true := by
  unfold absence
  split <;> rfl

theorem prepare_ensures : ∀ (rest done : List Item) (r : Request) (error : Option Error) (s : State Obj),
    Passing S r done rest → r.phase = .prepare →
      (prepare S.policy S.registry S.who r.hasError rest).Ensures S.rely (Waits S ⟨r, error, s⟩) s
        (After S ⟨r, error, s⟩ done)
  | [], done, r, error, s, h, _ => After.stop h (Or.inl (by simp))
  | item :: rest, done, r, error, s, h, hphase => by
    rw [prepare]
    by_cases hfailed : r.hasError = true
    · rw [if_pos hfailed]
      exact After.stop h (Or.inr ⟨Or.inl hphase, hfailed⟩)
    rw [if_neg hfailed]
    by_cases hc : item.complete = true
    · rw [if_pos hc, Activity.ensures_bind]
      exact (prepare_ensures rest (done ++ [item]) r error s (h.next hc) hphase).mono (fun _ => id)
        fun pass t => After.skip hc
    rw [if_neg hc]
    rw [Bool.not_eq_true] at hfailed hc
    have hturn {item' : Item} {later : Option Error} {t : State Obj}
        (hserved : Served S .prepare item s (item', later) t) :
        Turn S ⟨r, error, s⟩ ⟨{ r with items := done ++ item' :: rest }, error.or later, t⟩ :=
      .serve h hc (fun _ => hfailed) (hphase ▸ hserved)
    simp only [Activity.ensures_bind]
    refine (Activity.ensures_self _ S.rely s).mono (fun t ht => ⟨r, error, s, item, .refl, hphase, ht⟩) ?_
    intro f t hf
    cases hentry : f.entry with
    | none =>
      by_cases hlock : f.lock = .timedOut
      · simp only [if_pos hlock]
        exact After.pause (by simpa using hturn (.late hf hentry hlock)) rfl
      · simp only [if_neg hlock, Activity.ensures_bind, Activity.ensures_modifyGet]
        refine After.fail h (Or.inl hphase) (by simpa using hturn (.refused hf hentry hlock)) rfl ?_
        have herror := Item.hasError_setError item (absence (S.policy.query S.who item.region true) item.oid)
        rw [isError_absence, Bool.or_true] at herror
        exact herror
    | some e =>
      simp only [Activity.ensures_bind, callObject, Activity.ensures_modifyGet]
      refine settle_ensures ready (fun item' => prepare S.policy S.registry S.who item'.hasError rest)
        (fun _ => ⟨rfl, rfl⟩)
        (hturn (.prepared hf hentry)) ?_
      · intro item' later hc hd
        have hr := hasError_replace h.items hfailed item'
        rw [← hr]
        exact prepare_ensures rest (done ++ [item']) { r with items := done ++ item' :: rest } _ _
          ((h.replace hd).next hc) hphase

/-- An item is aimed at its target, if it has one; nobody is waited for, and nothing changes. -/
theorem aim_ensures (item : Item) (s : State Obj) : (S.aim item).Ensures S.rely (fun _ => False) s
    fun object t => t = s ∧ ∀ target, item.target = some target → object = some target := by
  cases htarget : item.target with
  | some target =>
    simp only [Scene.aim, target?, htarget, Activity.ensures_pure, true_and]
    rintro _ ⟨⟩
    rfl
  | none =>
    simp only [Scene.aim, target?, htarget, Activity.ensures_bind]
    refine (Lookup.run_unlocked rfl _ s).mono (fun _ => id) fun f t ht => ?_
    exact ⟨ht, fun target h => by cases h⟩

theorem aim_ensures_self (item : Item) (s : State Obj) (m : Moment Obj) :
    (S.aim item).Ensures S.rely (Waits S m) s ((S.aim item).Yields S.rely s) :=
  Activity.ensures_iff.mpr ⟨fun t ht => ((Activity.ensures_iff.mp (aim_ensures item s)).1 t ht).elim, fun _ _ => id⟩

theorem commit_ensures : ∀ (rest done : List Item) (r : Request) (error : Option Error) (s : State Obj),
    Passing S r done rest → r.phase = .commit →
      (commit S.policy S.registry S.who r.hasError rest).Ensures S.rely (Waits S ⟨r, error, s⟩) s
        (After S ⟨r, error, s⟩ done)
  | [], done, r, error, s, h, _ => After.stop h (Or.inl (by simp))
  | item :: rest, done, r, error, s, h, hphase => by
    rw [commit]
    by_cases hfailed : r.hasError = true
    · rw [if_pos hfailed]
      exact After.stop h (Or.inr ⟨Or.inr hphase, hfailed⟩)
    rw [if_neg hfailed]
    by_cases hc : item.complete = true
    · rw [if_pos hc, Activity.ensures_bind]
      exact (commit_ensures rest (done ++ [item]) r error s (h.next hc) hphase).mono (fun _ => id)
        fun pass t => After.skip hc
    rw [if_neg hc]
    rw [Bool.not_eq_true] at hfailed hc
    have hturn {item' : Item} {later : Option Error} {t : State Obj}
        (hserved : Served S .commit item s (item', later) t) :
        Turn S ⟨r, error, s⟩ ⟨{ r with items := done ++ item' :: rest }, error.or later, t⟩ :=
      .serve h hc (fun _ => hfailed) (hphase ▸ hserved)
    simp only [Activity.ensures_bind]
    refine (aim_ensures_self item s _).mono (fun _ => id) ?_
    rintro (_ | object) t ht
    · simp only [Activity.ensures_bind, Activity.ensures_modifyGet]
      refine After.fail h (Or.inr hphase) (by simpa using hturn (.stranded ht)) rfl ?_
      have herror := Item.hasError_setError item .commitFailed
      rw [show Status.commitFailed.isError = true from rfl, Bool.or_true] at herror
      exact herror
    · simp only [Activity.ensures_bind, callObject, Activity.ensures_modifyGet]
      refine settle_ensures Item.finish (fun item' => commit S.policy S.registry S.who item'.hasError rest)
        (fun _ => ⟨rfl, rfl⟩)
        (hturn (.committed ht)) ?_
      intro item' later hc hd
      have hr := hasError_replace h.items hfailed item'
      rw [← hr]
      exact commit_ensures rest (done ++ [item']) { r with items := done ++ item' :: rest } _ _
        ((h.replace hd).next hc) hphase

theorem undo_ensures : ∀ (rest done : List Item) (r : Request) (error : Option Error) (s : State Obj),
    Passing S r done rest → r.phase = .undo →
      (undo S.policy S.registry S.who rest).Ensures S.rely (Waits S ⟨r, error, s⟩) s (After S ⟨r, error, s⟩ done)
  | [], done, r, error, s, h, _ => After.stop h (Or.inl (by simp))
  | item :: rest, done, r, error, s, h, hphase => by
    rw [undo]
    by_cases hc : item.complete = true
    · rw [if_pos hc, Activity.ensures_bind]
      exact (undo_ensures rest (done ++ [item]) r error s (h.next hc) hphase).mono (fun _ => id)
        fun pass t => After.skip hc
    rw [if_neg hc]
    rw [Bool.not_eq_true] at hc
    have hturn {item' : Item} {later : Option Error} {t : State Obj}
        (hserved : Served S .undo item s (item', later) t) :
        Turn S ⟨r, error, s⟩ ⟨{ r with items := done ++ item' :: rest }, error.or later, t⟩ :=
      .serve h hc (by simp [hphase]) (hphase ▸ hserved)
    have goesOn {item' : Item} {later : Option Error} {t : State Obj} (hc : item'.complete = true)
        (hd : item'.deferred = false) := undo_ensures rest (done ++ [item']) { r with items := done ++ item' :: rest }
          (error.or later) t ((h.replace hd).next hc) hphase
    by_cases hp : item.prepared = true
    · simp only [hp, Bool.not_true, Bool.false_eq_true, if_false, Activity.ensures_bind]
      refine (aim_ensures_self item s _).mono (fun _ => id) ?_
      rintro (_ | object) t ht
      · simp only [Activity.ensures_bind, Activity.ensures_modifyGet]
        exact step_ensures rfl (hturn (.kept hp ht)) (goesOn rfl rfl)
      · simp only [Activity.ensures_bind, callObject, Activity.ensures_modifyGet]
        exact settle_ensures Item.finish (fun _ => undo S.policy S.registry S.who rest)
          (fun _ => ⟨rfl, rfl⟩) (hturn (.undone hp ht)) fun _ _ => goesOn
    · rw [Bool.not_eq_true] at hp
      simp only [hp, Bool.not_false, if_true, Activity.ensures_bind]
      exact step_ensures rfl (hturn (.unprepared hp)) (goesOn rfl rfl)

theorem cleanup_ensures : ∀ (rest done : List Item) (r : Request) (error : Option Error) (s : State Obj),
    Passing S r done rest → r.phase = .cleanup →
      (cleanup S.policy S.registry S.who rest).Ensures S.rely (Waits S ⟨r, error, s⟩) s
        (After S ⟨r, error, s⟩ done)
  | [], done, r, error, s, h, _ => After.stop h (Or.inl (by simp))
  | item :: rest, done, r, error, s, h, hphase => by
    rw [cleanup]
    by_cases hc : item.complete = true
    · rw [if_pos hc, Activity.ensures_bind]
      exact (cleanup_ensures rest (done ++ [item]) r error s (h.next hc) hphase).mono (fun _ => id)
        fun pass t => After.skip hc
    rw [if_neg hc]
    rw [Bool.not_eq_true] at hc
    have hturn {item' : Item} {later : Option Error} {t : State Obj}
        (hserved : Served S .cleanup item s (item', later) t) :
        Turn S ⟨r, error, s⟩ ⟨{ r with items := done ++ item' :: rest }, error.or later, t⟩ :=
      .serve h hc (by simp [hphase]) (hphase ▸ hserved)
    have goesOn {item' : Item} {later : Option Error} {t : State Obj} (hc : item'.complete = true)
        (hd : item'.deferred = false) := cleanup_ensures rest (done ++ [item'])
          { r with items := done ++ item' :: rest } (error.or later) t ((h.replace hd).next hc) hphase
    cases htarget : item.target with
    | none =>
      simp only [Activity.ensures_bind]
      exact step_ensures rfl (hturn (.untouched htarget)) (goesOn rfl rfl)
    | some object =>
      simp only [Activity.ensures_bind, Activity.ensures_modify, callObject, Activity.ensures_modifyGet]
      exact step_ensures rfl (hturn (.cleaned htarget)) (goesOn rfl rfl)

end Phases

/-! ### From phase to phase -/

section Drive
variable {S : Scene Obj} {r r' : Request} {error : Option Error} {s t : State Obj}

/-- A request that writes, while it is served. -/
structure Writes (S : Scene Obj) (r : Request) : Prop where
  who : r.requester = S.who
  kind : r.pdu.kind = .set
  status : r.status.isError = false
  phase : r.phase ≠ .process

omit [ManagedObject Obj] in
theorem Writes.isPhaseComplete (h : Writes S r) : r.isPhaseComplete = r.items.all Item.complete := by
  simp [Request.isPhaseComplete, h.status, Request.shape?, Request.shapeOf?, h.kind]

omit [ManagedObject Obj] in
theorem Writes.isComplete (h : Writes S r) :
    r.isComplete = (r.phase == .cleanup && r.items.all Item.complete) := by
  simp [Request.isComplete, Request.isTwoPhase, h.kind, h.isPhaseComplete]

omit [ManagedObject Obj] in
theorem writes_start {S : Scene Obj} {pdu : Pdu} (hkind : pdu.kind = .set) (maxSize : Nat) (created : Instant) :
    Writes S (.start S.who pdu maxSize created) := ⟨rfl, hkind, rfl, by simp [Request.start]⟩

omit [ManagedObject Obj] in
theorem Writes.all_complete (h : Writes S r) (hclose : r.phase = .start ∨ r.isPhaseComplete = true)
    (hphase : r.phase ≠ .start) : ∀ x ∈ r.items, x.complete = true := by
  have hc := hclose.resolve_left hphase
  rw [h.isPhaseComplete] at hc
  exact List.all_eq_true.mp hc

/-- How a request that writes comes into a phase. -/
inductive Onward (r : Request) : Phase → Prop
  | begin (hphase : r.phase = .start) : Onward r .prepare
  | commit (hphase : r.phase = .prepare) (hclear : r.hasError = false) : Onward r .commit
  /-- Something was prepared. -/
  | rollBack (hphase : r.phase = .prepare) (hfailed : r.hasError = true) : Onward r .undo
  /-- Nothing was prepared. -/
  | drop (hphase : r.phase = .prepare) (hfailed : r.hasError = true) (hnone : ∀ x ∈ r.items, x.prepared = false) :
    Onward r .cleanup
  | conclude (hphase : r.phase = .commit) (hclear : r.hasError = false) : Onward r .cleanup
  | takeBack (hphase : r.phase = .commit) (hfailed : r.hasError = true) : Onward r .undo
  | wind (hphase : r.phase = .undo) : Onward r .cleanup

omit [ManagedObject Obj] in
theorem Writes.onward (h : Writes S r) {phase : Phase} (hnext : r.following? = some phase) : Onward r phase := by
  have htwo : r.isTwoPhase = true := by simp [Request.isTwoPhase, h.kind]
  unfold Request.following? at hnext
  cases hphase : r.phase <;> simp only [hphase, htwo, if_true, Option.some.injEq, reduceCtorEq] at hnext
  · exact hnext ▸ .begin hphase
  · cases hfailed : r.hasError <;> simp only [hfailed, Bool.false_eq_true, if_false, if_true] at hnext
    · exact hnext ▸ .commit hphase hfailed
    · split at hnext
      · exact hnext ▸ .rollBack hphase hfailed
      · next hnone => exact hnext ▸ .drop hphase hfailed (by simpa using hnone)
  · cases hfailed : r.hasError <;> simp only [hfailed, Bool.false_eq_true, if_false, if_true] at hnext
    · exact hnext ▸ .conclude hphase hfailed
    · exact hnext ▸ .takeBack hphase hfailed
  · exact hnext ▸ .wind hphase

/-- How many phases there can be from one on, that one included. -/
def phasesFrom : Phase → Nat
  | .start | .prepare => 4
  | .commit => 3
  | .undo => 2
  | .cleanup => 1
  | .process => 0

/-- How many phases may still have to be gone through. -/
def phasesLeft (r : Request) : Nat :=
  if r.phase = .start ∨ r.isPhaseComplete = true then (r.following?.map phasesFrom).getD 0 else phasesFrom r.phase

omit [ManagedObject Obj] in
/-- The next phase of a request that writes has fewer phases from it on, unless it is the first one. -/
theorem Writes.following (h : Writes S r) {phase : Phase} (hnext : r.following? = some phase) :
    phase ≠ .start ∧ phase ≠ .process ∧ (r.phase = .start ∨ phasesFrom phase < phasesFrom r.phase) := by
  cases h.onward hnext with
  | begin hphase => simp [hphase]
  | commit hphase | rollBack hphase | drop hphase => simp [hphase, phasesFrom]
  | conclude hphase | takeBack hphase => simp [hphase, phasesFrom]
  | wind hphase => simp [hphase, phasesFrom]

/-- A request after a pass that an error may end. -/
def ended (r : Request) (pass : Pass) : Request :=
  let r := { r with items := pass.items }
  if !pass.paused && r.hasError then r.finishAll else r

/-- What a pass over the current phase comes to: turns lead to it, and the phase is over or an item is
deferred. -/
structure Passed (S : Scene Obj) (m : Moment Obj) (r : Request) (error : Option Error) (t : State Obj) : Prop where
  turns : Turns S m ⟨r, error, t⟩
  kept : ∃ items, r = { m.request with items }
  closed : (∃ i ∈ r.items, i.deferred = true) ∨ ∀ i ∈ r.items, i.complete = true

theorem After.passed {pass : Pass} (h : After S ⟨r, error, s⟩ [] pass t)
    (hphase : r.phase ≠ .prepare ∧ r.phase ≠ .commit) :
    Passed S ⟨r, error, s⟩ { r with items := pass.items } (error.or pass.error) t := by
  refine ⟨h.turns, ⟨_, rfl⟩, ?_⟩
  cases hp : pass.paused
  · refine Or.inr ((h.closed hp).resolve_right ?_)
    rintro ⟨hprepare | hcommit, -⟩
    · exact hphase.1 hprepare
    · exact hphase.2 hcommit
  · exact Or.inl (h.paused hp)

theorem After.ended {pass : Pass} (h : After S ⟨r, error, s⟩ [] pass t)
    (hphase : r.phase = .prepare ∨ r.phase = .commit) :
    Passed S ⟨r, error, s⟩ (ended r pass) (error.or pass.error) t := by
  cases hp : pass.paused
  · cases he : { r with items := pass.items }.hasError
    · simp only [Set.ended, hp, he, Bool.and_false, Bool.false_eq_true, if_false]
      refine ⟨h.turns, ⟨_, rfl⟩, Or.inr ((h.closed hp).resolve_right ?_)⟩
      rintro ⟨-, herror⟩
      exact absurd (he.symm.trans herror) (by simp)
    · simp only [Set.ended, hp, he, Bool.not_false, Bool.and_self, if_true]
      refine ⟨h.turns.tail (.giveUp ⟨hphase, he⟩), ⟨_, rfl⟩, Or.inr fun i hi => ?_⟩
      simp only [Request.finishAll, List.mem_map] at hi
      obtain ⟨j, -, rfl⟩ := hi
      split
      · assumption
      · rfl
  · simp only [Set.ended, hp, Bool.not_true, Bool.false_and, Bool.false_eq_true, if_false]
    exact ⟨h.turns, ⟨_, rfl⟩, Or.inl (h.paused hp)⟩

theorem pass_ensures (h : Writes S r) (hrested : ∀ i ∈ r.items, i.deferred = false) (hstart : r.phase ≠ .start) :
    (pass S.policy S.registry r).Ensures S.rely (Waits S ⟨r, error, s⟩) s
      fun x t => Passed S ⟨r, error, s⟩ x.1 (error.or x.2) t := by
  have hpassing : Passing S r [] r.items := ⟨h.who, rfl, by simp, hrested⟩
  have hprepare := prepare_ensures r.items [] r error s hpassing
  have hcommit := commit_ensures r.items [] r error s hpassing
  have hundo := undo_ensures r.items [] r error s hpassing
  have hcleanup := cleanup_ensures r.items [] r error s hpassing
  rw [← h.who] at hprepare hcommit hundo hcleanup
  unfold pass
  split <;> simp only [Activity.ensures_bind, Activity.ensures_pure]
  · next hphase => exact (hprepare hphase).mono (fun _ => id) fun pass t ht => ht.ended (Or.inl hphase)
  · next hphase => exact (hcommit hphase).mono (fun _ => id) fun pass t ht => ht.ended (Or.inr hphase)
  · next hphase => exact (hundo hphase).mono (fun _ => id) fun pass t ht => ht.passed (by simp [hphase])
  · next hphase => exact (hcleanup hphase).mono (fun _ => id) fun pass t ht => ht.passed (by simp [hphase])
  · next hphase => exact absurd hphase hstart
  · next hphase => exact absurd hphase h.phase

theorem advance?_eq (h : r.advance? = some r') : ∃ phase, r.following? = some phase ∧
    r' = { r with phase, items := r.items.map Item.restart } := by
  unfold Request.advance? at h
  rw [Option.map_eq_some_iff] at h
  obtain ⟨phase, hphase, rfl⟩ := h
  exact ⟨phase, hphase, rfl⟩

omit [ManagedObject Obj] in
theorem Writes.advance (h : Writes S r) (hr : r.advance? = some r') : Writes S r' := by
  obtain ⟨phase, hphase, rfl⟩ := advance?_eq hr
  exact ⟨h.who, h.kind, h.status, (h.following hphase).2.1⟩

/-- What driving a request comes to: turns lead to it, and the request is complete or an item is deferred. -/
structure Driven (S : Scene Obj) (m : Moment Obj) (x : Request × Option Error) (t : State Obj) : Prop where
  turns : Turns S m ⟨x.1, x.2, t⟩
  closed : x.1.isComplete = true ∨ ∃ i ∈ x.1.items, i.deferred = true

omit [ManagedObject Obj] in
theorem Writes.phase_of_following (h : Writes S r) (hnext : r.following? = none) : r.phase = .cleanup := by
  unfold Request.following? at hnext
  cases hphase : r.phase <;> simp only [hphase, reduceCtorEq] at hnext
  · exact absurd hphase h.phase
  · rfl

omit [ManagedObject Obj] in
theorem Writes.complete_of_following (h : Writes S r) (hclose : r.phase = .start ∨ r.isPhaseComplete = true)
    (hnext : r.following? = none) : r.isComplete = true := by
  have hphase := h.phase_of_following hnext
  rw [hphase] at hclose
  rw [h.isComplete, hphase, ← h.isPhaseComplete, hclose.resolve_left (by simp)]
  rfl

/-- One phase of a drive, given that the later ones are right. -/
theorem phase_ensures {phases : Nat} (h : Writes S r) (hrested : ∀ i ∈ r.items, i.deferred = false)
    (hstart : r.phase ≠ .start) (hleft : phasesFrom r.phase ≤ phases + 1)
    (hnext : ∀ r' error' t, Writes S r' → r'.isPhaseComplete = true → phasesLeft r' ≤ phases →
      (drive S.policy S.registry phases r' error').Ensures S.rely (Waits S ⟨r', error', t⟩) t
        (Driven S ⟨r', error', t⟩)) :
    (do
      let (r, later) ← pass S.policy S.registry r
      let error := error.or later
      if !r.isPhaseComplete || r.phase = .cleanup then return (r, error)
      else drive S.policy S.registry phases r error : Doing Obj (Request × Option Error)).Ensures S.rely
        (Waits S ⟨r, error, s⟩) s (Driven S ⟨r, error, s⟩) := by
  rw [Activity.ensures_bind]
  refine (pass_ensures h hrested hstart).mono (fun _ => id) ?_
  rintro ⟨r', later⟩ t ⟨hturns, ⟨items, rfl⟩, hclose⟩
  have h' : Writes S { r with items } := ⟨h.who, h.kind, h.status, h.phase⟩
  have hcomplete := h'.isPhaseComplete
  dsimp only at hturns hclose hcomplete ⊢
  cases hc : items.all Item.complete <;> rw [hc] at hcomplete
  · simp only [hcomplete, Bool.not_false, Bool.true_or, if_true]
    refine ⟨hturns, Or.inr (hclose.resolve_right fun hall => ?_)⟩
    rw [List.all_eq_true.mpr hall] at hc
    cases hc
  · by_cases hphase : r.phase = .cleanup
    · simp only [hphase, decide_true, Bool.or_true, if_true]
      refine ⟨hphase ▸ hturns, Or.inl ?_⟩
      rw [← hphase, h'.isComplete, hc, hphase]
      rfl
    · simp only [hcomplete, hphase, decide_false, Bool.not_true, Bool.or_self, Bool.false_eq_true, if_false]
      have hless : phasesLeft { r with items } ≤ phases := by
        rw [phasesLeft, if_pos (Or.inr hcomplete)]
        cases hfollowing : ({ r with items } : Request).following? with
        | none => simp
        | some phase =>
          have : phasesFrom phase < phasesFrom r.phase := (h'.following hfollowing).2.2.resolve_left hstart
          simp only [Option.map_some, Option.getD_some]
          omega
      refine (hnext _ _ t h' hcomplete hless).mono (fun _ => Waits.after hturns) ?_
      exact fun x u hx => ⟨hturns.trans hx.turns, hx.closed⟩

theorem drive_ensures : ∀ (phases : Nat) (r : Request) (error : Option Error) (s : State Obj), Writes S r →
    (¬(r.phase = .start ∨ r.isPhaseComplete = true) → ∀ i ∈ r.items, i.deferred = false) → phasesLeft r ≤ phases →
      (drive S.policy S.registry phases r error).Ensures S.rely (Waits S ⟨r, error, s⟩) s
        (Driven S ⟨r, error, s⟩)
  | 0, r, error, s, h, _, hleft => by
    have hpos (phase : Phase) (hp : phase ≠ .process) : 0 < phasesFrom phase := by
      cases phase <;> first | exact absurd rfl hp | decide
    refine ⟨.refl, Or.inl ?_⟩
    unfold phasesLeft at hleft
    split at hleft
    · next hclose =>
      cases hnext : r.following? with
      | none => exact h.complete_of_following hclose hnext
      | some phase =>
        have := hpos phase (h.following hnext).2.1
        simp only [hnext, Option.map_some, Option.getD_some] at hleft
        omega
    · have := hpos r.phase h.phase
      omega
  | phases + 1, r, error, s, h, hrested, hleft => by
    have hnext (r' : Request) (error' : Option Error) (t : State Obj) (h' : Writes S r')
        (hclose : r'.isPhaseComplete = true) (hleft : phasesLeft r' ≤ phases) :=
      drive_ensures phases r' error' t h' (fun hn => absurd (Or.inr hclose) hn) hleft
    rw [drive]
    unfold phasesLeft at hleft
    by_cases hclose : r.phase = .start ∨ r.isPhaseComplete = true
    · simp only [if_pos hclose] at hleft ⊢
      cases hadvance : r.advance? with
      | none =>
        refine ⟨.refl, Or.inl (h.complete_of_following hclose ?_)⟩
        simpa [Request.advance?] using hadvance
      | some r' =>
        have hturn : Turn S ⟨r, error, s⟩ ⟨r', error, s⟩ := .advance hclose hadvance
        have h' := h.advance hadvance
        obtain ⟨phase, hphase, rfl⟩ := advance?_eq hadvance
        have hnot := h.following hphase
        simp only [hphase, Option.map_some, Option.getD_some] at hleft
        simp only [hnot.1, hnot.2.1, or_self, if_false]
        have hrested' : ∀ i ∈ r.items.map Item.restart, i.deferred = false := by
          simp only [List.mem_map]
          rintro _ ⟨i, -, rfl⟩
          rfl
        refine (phase_ensures h' hrested' hnot.1 hleft hnext).mono (fun _ => Waits.after (.single hturn)) ?_
        exact fun x t hx => ⟨.head hturn hx.turns, hx.closed⟩
    · simp only [if_neg hclose] at hleft ⊢
      have hstart : r.phase ≠ .start := fun hp => hclose (Or.inl hp)
      simp only [hstart, h.phase, or_self, if_false]
      exact phase_ensures h (hrested hclose) hstart hleft hnext

omit [ManagedObject Obj] in
theorem phasesLeft_le (r : Request) : phasesLeft r ≤ phaseCount := by
  have hfrom (phase : Phase) : phasesFrom phase ≤ phaseCount := by cases phase <;> decide
  unfold phasesLeft
  split
  · cases r.following? with
    | none => exact Nat.zero_le _
    | some phase => exact hfrom phase
  · exact hfrom r.phase

/-- One pass of the service over a request. -/
theorem run_ensures (h : Writes S r)
    (hrested : ¬(r.phase = .start ∨ r.isPhaseComplete = true) → ∀ i ∈ r.items, i.deferred = false) :
    (run S.policy S.registry r).Ensures S.rely (Waits S ⟨r, none, s⟩) s (Driven S ⟨r, none, s⟩) :=
  drive_ensures phaseCount r none s h hrested (phasesLeft_le r)

theorem Turn.writes {m m' : Moment Obj} (hturn : Turn S m m') (h : Writes S m.request) : Writes S m'.request := by
  cases hturn with
  | advance _ hr => exact h.advance hr
  | serve | wait | giveUp | retry => exact ⟨h.who, h.kind, h.status, h.phase⟩

theorem Turns.writes {m m' : Moment Obj} (hturns : Turns S m m') (h : Writes S m.request) : Writes S m'.request := by
  induction hturns with
  | refl => exact h
  | tail _ hturn ih => exact hturn.writes ih

/-- Whatever passes there are over a request, turns lead to every wait and to every end. -/
theorem Passes.ensures {q : Progress (State Obj) (Request × Option Error)} (hr : Writes S r)
    (hstart : r.phase = .start) (h : Passes S r s q) :
    q.Ensures S.rely (Waits S ⟨r, none, s⟩) (Driven S ⟨r, none, s⟩) := by
  induction h with
  | first => exact run_ensures hr fun hn => absurd (Or.inl hstart) hn
  | wake before hrely ih => exact ih.2 _ _ hrely
  | @again r' t u before hc hrely ih =>
    obtain ⟨hturns, -⟩ := ih
    have hturns := hturns.tail (.retry hc hrely)
    have hrested : ∀ i ∈ r'.retry.items, i.deferred = false := by
      simp only [Request.retry, List.mem_map]
      rintro _ ⟨i, -, rfl⟩
      rfl
    refine Progress.Ensures.mono (run_ensures (s := u) (Turns.writes hturns hr) fun _ => hrested) ?_ ?_
    · exact fun _ => Waits.after hturns
    · exact fun x v hx => ⟨hturns.trans hx.turns, hx.closed⟩

/-- Turns lead to the state in which a request waits or in which a pass over it has ended. -/
theorem Passes.reaches {q : Progress (State Obj) (Request × Option Error)} (hr : Writes S r)
    (hstart : r.phase = .start) (h : Passes S r s q) : Reaches S ⟨r, none, s⟩ q.state :=
  ((h.ensures hr hstart).mono (fun _ => Waits.reaches) fun _ _ => id).state fun x _ hx => ⟨x.1, x.2, hx.turns⟩

end Drive
end Responder.Set
