import Responder.Proofs.Custody.Table
import Responder.Proofs.Lookup

/-! Activities that go on alone. While such an activity waits nobody else does anything, so the lock that it waits for
    stays where it is, and the wait ends by time (`Progress.Alone`). A look-up that goes on alone has taken the lock of
    the entry that it finds, if it takes locks at all, and no other one (`Lookup.run_alone`). -/

namespace Responder

variable {Obj α β : Type}

/-- Nothing has happened but that time has passed and waits were ended. -/
def State.Later (s t : State Obj) : Prop := ∃ now released, t = { s with now, released }

/-- How a wait ends while nobody else does anything: with the lock, if that is free, or by time. -/
def Wait.Ends (wait : Wait) (s : State Obj) (wakeup : Wakeup) (t : State Obj) : Prop :=
  match wakeup with
  | .granted => ∃ u, s.Later u ∧ u.tryLock wait.registry wait.owner wait.object = (true, t)
  | .timedOut | .expired => s.Later t

namespace Progress

/-- What the activity comes to, if nobody else does anything. -/
inductive Comes : Progress (State Obj) α → α → State Obj → Prop
  | done (a : α) (s : State Obj) : Comes (.done a s) a s
  | wait {wait : Wait} {s t u : State Obj} {resume : Wakeup → State Obj → Progress (State Obj) α} {wakeup : Wakeup}
      {a : α} (h : wait.Ends s wakeup t) (next : Comes (resume wakeup t) a u) : Comes (.waiting wait s resume) a u

/-- What holds at every wait and in the end, if nobody else does anything. Waits are only for locks of others, which
cannot become free. -/
def Alone (here : State Obj → Prop) (ends : α → State Obj → Prop) : Progress (State Obj) α → Prop
  | done a s => ends a s
  | waiting wait s resume => here s ∧ (s.tryLock wait.registry wait.owner wait.object).1 = false ∧
      ∀ wakeup ≠ .granted, ∀ t, s.Later t → (resume wakeup t).Alone here ends

variable {here here' : State Obj → Prop} {ends ends' : α → State Obj → Prop}

theorem alone_bind {p : Progress (State Obj) α} {f : α → State Obj → Progress (State Obj) β}
    {ends : β → State Obj → Prop} :
    (p.bind f).Alone here ends ↔ p.Alone here fun a s => (f a s).Alone here ends := by
  induction p with
  | done a s => exact Iff.rfl
  | waiting wait s resume ih =>
    exact and_congr_right fun _ => and_congr_right fun _ => forall_congr' fun wakeup => imp_congr_right fun _ =>
      forall_congr' fun t => imp_congr_right fun _ => ih wakeup t

theorem Alone.mono {p : Progress (State Obj) α} (h : p.Alone here ends) (hhere : ∀ s, here s → here' s)
    (hends : ∀ a s, ends a s → ends' a s) : p.Alone here' ends' := by
  induction p with
  | done a s => exact hends a s h
  | waiting wait s resume ih =>
    exact ⟨hhere s h.1, h.2.1, fun wakeup hwakeup t ht => ih wakeup t (h.2.2 wakeup hwakeup t ht)⟩

theorem Alone.and {p : Progress (State Obj) α} (h : p.Alone here ends) (h' : p.Alone here' ends') :
    p.Alone (fun s => here s ∧ here' s) fun a s => ends a s ∧ ends' a s := by
  induction p with
  | done a s => exact ⟨h, h'⟩
  | waiting wait s resume ih =>
    exact ⟨⟨h.1, h'.1⟩, h.2.1, fun wakeup hwakeup t ht => ih wakeup t (h.2.2 wakeup hwakeup t ht)
      (h'.2.2 wakeup hwakeup t ht)⟩

end Progress

namespace State

variable {s t u : State Obj} {number : Nat} {owner : TransactionId} {object : ObjectId}

theorem Later.refl (s : State Obj) : s.Later s := ⟨s.now, s.released, rfl⟩

theorem Later.trans (h : s.Later t) (h' : t.Later u) : s.Later u := by
  obtain ⟨now, released, rfl⟩ := h
  obtain ⟨now', released', rfl⟩ := h'
  exact ⟨now', released', rfl⟩

theorem Later.registry (h : s.Later t) (number : Nat) : t.registry number = s.registry number := by
  obtain ⟨now, released, rfl⟩ := h
  rfl

theorem Later.journal (h : s.Later t) : t.journal = s.journal := by
  obtain ⟨now, released, rfl⟩ := h
  rfl

theorem Later.setLocks (h : s.Later t) (number : Nat) (locks : Locks) :
    (s.setLocks number locks).Later (t.setLocks number locks) := by
  obtain ⟨now, released, rfl⟩ := h
  exact ⟨now, released, rfl⟩

theorem Later.tryLock (h : s.Later t) (number : Nat) (owner : TransactionId) (object : ObjectId) :
    (t.tryLock number owner object).1 = (s.tryLock number owner object).1 ∧
      (s.tryLock number owner object).2.Later (t.tryLock number owner object).2 := by
  unfold State.tryLock
  rw [h.registry]
  split
  · exact ⟨rfl, h.setLocks _ _⟩
  · exact ⟨rfl, h⟩

/-- A lock that could not be taken leaves the state as it was. -/
theorem tryLock_of_not (h : (s.tryLock number owner object).1 = false) :
    s.tryLock number owner object = (false, s) := by
  unfold State.tryLock at h ⊢
  split
  · next heq => simp [heq] at h
  · rfl

theorem setLocks_self (s : State Obj) (number : Nat) : s.setLocks number (s.registry number).locks = s := by
  have hset : s.registries.set number (s.registry number) = s.registries := by
    apply List.ext_getElem?
    intro i
    rw [List.getElem?_set]
    split
    · next h =>
      subst h
      simp only [registry, List.getD_eq_getElem?_getD]
      split
      · next hlt => simp [List.getElem?_eq_getElem hlt]
      · next hge => simp [List.getElem?_eq_none (Nat.le_of_not_lt hge)]
    · rfl
  rw [setLocks, setRegistry, hset]

/-- To put the locks of a registry back undoes what was set before. -/
theorem setLocks_setLocks (s : State Obj) (number : Nat) (locks : Locks) :
    (s.setLocks number locks).setLocks number (s.registry number).locks = s := by
  have hregistry : ({ (s.setLocks number locks).registry number with locks := (s.registry number).locks } : Registry) =
      s.registry number := by
    rw [registry_setLocks]
    split <;> rfl
  calc (s.setLocks number locks).setLocks number (s.registry number).locks
    _ = (s.setLocks number locks).setRegistry number (s.registry number) := by rw [State.setLocks, hregistry]
    _ = s.setLocks number (s.registry number).locks := by simp only [setLocks, setRegistry, List.set_set]
    _ = s := s.setLocks_self number

/-- A registry with entries is there. -/
theorem lt_length_of_mem {e : Entry} (he : e ∈ (s.registry number).entries) : number < s.registries.length := by
  refine Nat.lt_of_not_le fun hge => ?_
  rw [registry, List.getD_eq_getElem?_getD, List.getElem?_eq_none hge] at he
  cases he

/-- To release a lock just taken leaves everything as it was before. -/
theorem unlock_tryLock (hs : (s.registry number).locks.Sound) (htaken : (s.tryLock number owner object).1 = true) :
    s.Later ((s.tryLock number owner object).2.unlock number owner object).2 := by
  unfold State.tryLock at htaken ⊢
  cases htake : (s.registry number).locks.take? owner object with
  | none => simp [htake] at htaken
  | some locks =>
    dsimp only
    have hrelease := (hs.take? htake).2.2
    have hnote (t : State Obj) (ht : t = s) (free : Bool) : s.Later (if free then t else t.noteRelease number) := by
      subst ht
      split
      · exact .refl t
      · exact ⟨t.now, t.released ++ [number], rfl⟩
    unfold State.unlock
    rw [registry_setLocks]
    split
    · next locks' heq =>
      dsimp only
      refine hnote _ ?_ _
      split at heq
      · rw [hrelease] at heq
        obtain rfl := Option.some.inj heq
        exact setLocks_setLocks s number locks
      · next habsent =>
        -- A registry that is not there has no locks to release.
        have hlocks : (s.registry number).locks = {} := by
          have hge : s.registries.length ≤ number := by simpa using habsent
          simp [registry, List.getD_eq_getElem?_getD, List.getElem?_eq_none hge]
        rw [hlocks] at heq
        cases heq
    · next heq =>
      split at heq
      · rw [hrelease] at heq
        cases heq
      · next habsent =>
        have hge : s.registries.length ≤ number := by simpa using habsent
        refine ⟨s.now, s.released, ?_⟩
        simp only [setLocks, setRegistry, List.set_eq_of_length_le hge]

end State

namespace Progress

variable {here : State Obj → Prop} {ends : α → State Obj → Prop}

/-- Whatever an activity waits for, its waits are over in time. -/
theorem exists_comes (p : Progress (State Obj) α) : ∃ a t, p.Comes a t := by
  induction p with
  | done a s => exact ⟨a, s, .done a s⟩
  | waiting wait s resume ih =>
    obtain ⟨a, t, hcomes⟩ := ih .timedOut s
    have hends : wait.Ends s .timedOut s := State.Later.refl s
    exact ⟨a, t, .wait hends hcomes⟩

/-- What holds in the end holds of whatever the activity comes to. -/
theorem Alone.of_comes {p : Progress (State Obj) α} {a : α} {t : State Obj} (h : p.Alone here ends)
    (hp : p.Comes a t) : ends a t := by
  induction hp with
  | done a s => exact h
  | @wait wait s t u resume wakeup a hends next ih =>
    obtain ⟨-, hheld, hnext⟩ := h
    cases wakeup with
    | granted =>
      obtain ⟨v, hv, htaken⟩ := hends
      rw [← (hv.tryLock _ _ _).1, htaken] at hheld
      cases hheld
    | timedOut => exact ih (hnext .timedOut (by decide) t hends)
    | expired => exact ih (hnext .expired (by decide) t hends)

end Progress

namespace Activity

variable {here : State Obj → Prop} {s : State Obj}

/-- What holds at every wait and in the end, if the activity starts in a state and nobody else does anything. -/
def Alone (act : Doing Obj α) (here : State Obj → Prop) (s : State Obj) (ends : α → State Obj → Prop) : Prop :=
  (act s).Alone here ends

@[simp] theorem alone_pure {a : α} {ends : α → State Obj → Prop} :
    Alone (pure a) here s ends ↔ ends a s := Iff.rfl

@[simp] theorem alone_bind {act : Doing Obj α} {f : α → Doing Obj β} {ends : β → State Obj → Prop} :
    Alone (act >>= f) here s ends ↔ Alone act here s fun a s => Alone (f a) here s ends := Progress.alone_bind

@[simp] theorem alone_get {ends : State Obj → State Obj → Prop} : Alone get here s ends ↔ ends s s := Iff.rfl

@[simp] theorem alone_set {t : State Obj} {ends : PUnit → State Obj → Prop} :
    Alone (set t) here s ends ↔ ends ⟨⟩ t := Iff.rfl

@[simp] theorem alone_modifyGet {f : State Obj → α × State Obj} {ends : α → State Obj → Prop} :
    Alone (modifyGet f) here s ends ↔ ends (f s).1 (f s).2 := Iff.rfl

@[simp] theorem alone_modify {f : State Obj → State Obj} {ends : PUnit → State Obj → Prop} :
    Alone (modify f) here s ends ↔ ends ⟨⟩ (f s) := Iff.rfl

theorem Alone.mono {act : Doing Obj α} {here' : State Obj → Prop} {ends ends' : α → State Obj → Prop}
    (h : act.Alone here s ends) (hhere : ∀ s, here s → here' s) (hends : ∀ a s, ends a s → ends' a s) :
    act.Alone here' s ends' := Progress.Alone.mono h hhere hends

theorem Alone.bind {act : Doing Obj α} {f : α → Doing Obj β} {ends : α → State Obj → Prop}
    {after : β → State Obj → Prop} (hact : act.Alone here s ends)
    (hf : ∀ a t, ends a t → (f a).Alone here t after) : Alone (act >>= f) here s after :=
  alone_bind.mpr (hact.mono (fun _ => id) hf)

/-- A wait for a lock of somebody else ends without it. -/
theorem alone_await {wait : Wait} {ends : Bool → State Obj → Prop} (hs : here s)
    (hheld : (s.tryLock wait.registry wait.owner wait.object).1 = false) (h : ∀ t, s.Later t → ends false t) :
    Alone (await wait) here s ends := by
  refine ⟨hs, hheld, fun wakeup hwakeup t ht => ?_⟩
  show ends (decide (wakeup = .granted)) t
  rw [decide_eq_false hwakeup]
  exact h t ht

/-- What holds in the end of an activity, unless it is given up where it waits. -/
theorem Alone.before {act : Doing Obj α} {ends : α → State Obj → Prop} {after : State Obj → Prop}
    (h : act.Alone here s ends) (hafter : ∀ t u, here t → t.Later u → after u) (expiry : Instant) :
    (act.before expiry).Alone here s fun out t =>
      match out with
      | some a => ends a t
      | none => after t := by
  have hbefore (p : Progress (State Obj) α) (hp : p.Alone here ends) : (p.before expiry).Alone here fun out t =>
      match out with
      | some a => ends a t
      | none => after t := by
    induction p with
    | done a s => exact hp
    | waiting wait s resume ih =>
      simp only [Progress.before, Progress.Alone]
      refine ⟨hp.1, hp.2.1, fun wakeup hwakeup t ht => ?_⟩
      cases wakeup with
      | granted => exact absurd rfl hwakeup
      | timedOut => exact ih .timedOut t (hp.2.2 .timedOut hwakeup t ht)
      | expired => exact hafter s t hp.1 ht
  exact hbefore (act s) h

end Activity

/-! ### Look-ups -/

namespace Lookup

variable [ManagedObject Obj] {l : Lookup} {s t u : State Obj} {e : Entry} {f : Finding}

/-- What a look-up comes to alone. It has found an entry of its registry or none, and the state is as it was, but for
the lock of that entry if locks are taken. -/
inductive Found (l : Lookup) (s : State Obj) : Finding → State Obj → Prop
  | nothing {f : Finding} {t : State Obj} (hentry : f.entry = none) (h : s.Later t) : Found l s f t
  | unlocked {f : Finding} {e : Entry} {t : State Obj} (he : e ∈ (s.registry l.registry).entries)
      (hover : l.query.region.overlaps e.region = true) (hentry : f.entry = some e) (hterms : l.locking? s = none)
      (hlock : f.lock.isLocked = false) (h : s.Later t) : Found l s f t
  | locked {f : Finding} {e : Entry} {terms : LockTerms} {t : State Obj} (he : e ∈ (s.registry l.registry).entries)
      (hover : l.query.region.overlaps e.region = true) (hentry : f.entry = some e)
      (hterms : l.locking? s = some terms) (hlock : f.lock.isLocked = true)
      (htaken : (s.tryLock l.registry terms.owner e.object).1 = true)
      (h : (s.tryLock l.registry terms.owner e.object).2.Later t) : Found l s f t

omit [ManagedObject Obj] in
theorem locking?_of_later (h : s.Later t) : l.locking? t = l.locking? s := by
  rw [locking?, locking?, h.registry]

/-- An entry may be looked at. -/
def Eligible (l : Lookup) (s : State Obj) (e : Entry) : Prop :=
  e ∈ (s.registry l.registry).entries ∧ l.query.region.overlaps e.region = true

variable (hs : (s.registry l.registry).locks.Sound)
include hs

/-- Whatever is done about a contended entry, going through the entries comes to what it should if that does. -/
theorem walk_alone {onContention : Option (LockTerms → Entry → Bool → Doing Obj Finding)}
    (hwait : ∀ wait, onContention = some wait → ∀ terms e late t, s.Later t → l.Eligible s e →
      l.locking? s = some terms → (t.tryLock l.registry terms.owner e.object).1 = false →
        (wait terms e late).Alone s.Later t (l.Found s)) :
    ∀ (entries : List Entry) (late : Bool) (t : State Obj), s.Later t → (∀ e ∈ entries, l.Eligible s e) →
      (l.walk onContention entries late).Alone s.Later t (l.Found s)
  | [], late, t, ht, _ => .nothing rfl ht
  | e :: rest, late, t, ht, hentries => by
    obtain ⟨he, hrest⟩ := List.forall_mem_cons.mp hentries
    have ih (late : Bool) (u : State Obj) (hu : s.Later u) := walk_alone hwait rest late u hu hrest
    simp only [walk, Activity.alone_bind, Activity.alone_get]
    rw [locking?_of_later ht]
    cases hterms : l.locking? s with
    | none =>
      simp only [examine, Activity.alone_bind, Activity.alone_get]
      split
      · exact .unlocked he.1 he.2 rfl hterms rfl ht
      · exact ih late t ht
    | some terms =>
      obtain ⟨hsame, hlater⟩ := ht.tryLock l.registry terms.owner e.object
      simp only [Activity.alone_bind, Activity.alone_modifyGet]
      cases htaken : (t.tryLock l.registry terms.owner e.object).1 with
      | true =>
        simp only [if_true, examine, Activity.alone_bind, Activity.alone_get]
        split
        · have hstatus : (heldStatus late).isLocked = true := by cases late <;> rfl
          exact .locked he.1 he.2 rfl hterms hstatus (hsame ▸ htaken) hlater
        · refine ih late _ (ht.trans (State.unlock_tryLock ?_ htaken))
          rwa [ht.registry]
      | false =>
        rw [State.tryLock_of_not htaken]
        simp only [Bool.false_eq_true, if_false]
        cases onContention with
        | none => exact ih true t ht
        | some wait => exact hwait wait rfl terms e late t ht he hterms htaken

theorem search_alone : ∀ (patience : Nat) (entries : List Entry) (late : Bool) (t : State Obj), s.Later t →
    (∀ e ∈ entries, l.Eligible s e) → (l.search patience entries late).Alone s.Later t (l.Found s)
  | 0, entries, late, t, ht, he => walk_alone hs (by simp) entries late t ht he
  | patience + 1, entries, late, t, ht, he => by
    refine walk_alone hs ?_ entries late t ht he
    rintro _ ⟨⟩ terms e late t ht he hterms hheld
    simp only [resume, Activity.alone_bind]
    refine Activity.alone_await ht hheld fun u hu => ?_
    have hlater := ht.trans hu
    simp only [Bool.false_eq_true, if_false, Activity.alone_bind, Activity.alone_get]
    refine search_alone patience _ true u hlater fun e he => ?_
    rw [hlater.registry] at he
    exact mem_candidatesAfter he

/-- A look-up that goes on alone takes the lock of what it finds, if it takes locks. -/
theorem run_alone (patience : Nat) : (l.run patience).Alone s.Later s (l.Found s) := by
  simp only [run, Activity.alone_bind, Activity.alone_get]
  exact search_alone hs _ _ false s (.refl s) fun e he => Registry.mem_candidates_iff.mp he

end Lookup
end Responder
