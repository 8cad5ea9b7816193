import Responder.Proofs.Interference
import Responder.Proofs.Locks
import Responder.Proofs.Registry
import Responder.Registry.Lookup

/-! Look-ups among others. A look-up changes nothing but locks, so it keeps whatever does not depend on
    them and is kept by the others (`Steady`); and what it finds is an entry that the query accepts in
    the state in which the look-up ends (`run_ensures`). A look-up that meets no lock of anybody else does not
    wait, and finds the first of its candidates that the query accepts (`run_free`). -/

namespace Responder

/-- The registry without its locks. -/
def Registry.bare (r : Registry) : Registry := { r with locks := {} }

namespace State

variable {Obj : Type} (s : State Obj) (number : Nat)

/-- The state apart from its locks. -/
def bare : State Obj := { s with registries := s.registries.map Registry.bare, released := [] }

@[simp] theorem bare_objects : s.bare.objects = s.objects := rfl

@[simp] theorem bare_journal : s.bare.journal = s.journal := rfl

@[simp] theorem bare_registry : s.bare.registry number = (s.registry number).bare := by
  simp only [registry, bare, List.getD_eq_getElem?_getD, List.getElem?_map]
  cases s.registries[number]? <;> rfl

@[simp] theorem bare_noteRelease : (s.noteRelease number).bare = s.bare := rfl

@[simp] theorem bare_setLocks (locks : Locks) : (s.setLocks number locks).bare = s.bare := by
  have hset : (s.registries.set number { s.registry number with locks }).map Registry.bare =
      s.registries.map Registry.bare := by
    apply List.ext_getElem?
    intro i
    simp only [List.getElem?_map, List.getElem?_set, registry, List.getD_eq_getElem?_getD]
    split
    · next h =>
      subst h
      split
      · next h => simp [List.getElem?_eq_getElem h, Registry.bare]
      · next h => simp [List.getElem?_eq_none (Nat.le_of_not_lt h)]
    · rfl
  simp only [bare, setLocks, setRegistry, hset]

@[simp] theorem bare_tryLock (owner : TransactionId) (object : ObjectId) :
    (s.tryLock number owner object).2.bare = s.bare := by
  unfold tryLock
  split <;> simp

@[simp] theorem bare_unlock (owner : TransactionId) (object : ObjectId) :
    (s.unlock number owner object).2.bare = s.bare := by
  unfold unlock
  split
  · dsimp only
    split <;> simp
  · rfl

@[simp] theorem bare_releaseLocks (owner : TransactionId) : (s.releaseLocks number owner).2.bare = s.bare := by
  simp only [releaseLocks]
  split <;> simp

theorem registry_setLocks (other : Nat) (locks : Locks) : (s.setLocks number locks).registry other =
    if other = number ∧ number < s.registries.length then { s.registry number with locks } else s.registry other := by
  simp only [setLocks, setRegistry, registry, List.getD_eq_getElem?_getD, List.getElem?_set]
  by_cases hother : other = number
  · subst hother
    by_cases hlt : other < s.registries.length
    · simp [hlt]
    · simp [hlt]
  · simp [Ne.symm hother, hother]

/-- Nothing has changed but locks of one registry. -/
structure Relocks (number : Nat) (s t : State Obj) : Prop where
  bare : t.bare = s.bare
  rest : ∀ other ≠ number, (t.registry other).locks = (s.registry other).locks

theorem relocks_setLocks (locks : Locks) : Relocks number s (s.setLocks number locks) where
  bare := s.bare_setLocks number locks
  rest other hother := by rw [registry_setLocks, if_neg fun hsame => hother hsame.1]

theorem relocks_tryLock (owner : TransactionId) (object : ObjectId) :
    Relocks number s (s.tryLock number owner object).2 := by
  unfold tryLock
  split
  · exact s.relocks_setLocks number _
  · exact ⟨rfl, fun _ _ => rfl⟩

theorem relocks_unlock (owner : TransactionId) (object : ObjectId) :
    Relocks number s (s.unlock number owner object).2 := by
  have hset := s.relocks_setLocks number
  unfold unlock
  split
  · dsimp only
    split
    · exact hset _
    · exact ⟨(hset _).bare, (hset _).rest⟩
  · exact ⟨rfl, fun _ _ => rfl⟩

theorem relocks_releaseLocks (owner : TransactionId) : Relocks number s (s.releaseLocks number owner).2 := by
  have hset := s.relocks_setLocks number
  unfold releaseLocks
  dsimp only
  split
  · exact ⟨rfl, fun _ _ => rfl⟩
  · exact ⟨(hset _).bare, (hset _).rest⟩

variable {s number} {t : State Obj}

theorem objects_eq_of_bare (h : t.bare = s.bare) : t.objects = s.objects := congrArg (·.objects) h

theorem sent_eq_of_bare (h : t.bare = s.bare) : t.sent = s.sent := congrArg (·.sent) h

theorem journal_eq_of_bare (h : t.bare = s.bare) : t.journal = s.journal := congrArg (·.journal) h

theorem entries_eq_of_bare (h : t.bare = s.bare) (number : Nat) :
    (t.registry number).entries = (s.registry number).entries := by
  have hr := congrArg (fun s => (s.registry number).entries) h
  simp only [bare_registry] at hr
  exact hr

theorem locking_eq_of_bare (h : t.bare = s.bare) (number : Nat) :
    (t.registry number).locking = (s.registry number).locking := by
  have hr := congrArg (fun s => (s.registry number).locking) h
  simp only [bare_registry] at hr
  exact hr

end State

namespace Locking

/-- What is only read is never locked. -/
def SparesReads (k : Locking) : Prop := ∀ owner q, q.writes = false → k owner q = false

/-- What is to be written is always locked. -/
def GuardsWrites (k : Locking) : Prop := ∀ owner q, q.writes = true → k owner q = true

theorem sparesReads_writes : writes.SparesReads := fun _ _ hreads => hreads

theorem guardsWrites_writes : writes.GuardsWrites := fun _ _ hwrites => hwrites

end Locking

/-- What neither the locks of a registry nor the others can change. -/
structure Steady {Obj : Type} (rely : State Obj → State Obj → Prop) (number : Nat) (P : State Obj → Prop) : Prop where
  locks : ∀ {s t}, s.Relocks number t → P s → P t
  others : ∀ {s t}, rely s t → P s → P t

namespace Lookup

variable {Obj : Type} [ManagedObject Obj] {rely : State Obj → State Obj → Prop} {P : State Obj → Prop}
  {E : Entry → Prop} {l : Lookup}

/-- A finding is an entry of the wanted kind, and the query accepts its object. -/
def Sound (l : Lookup) (E : Entry → Prop) (f : Finding) (s : State Obj) : Prop :=
  ∀ e, f.entry = some e → E e ∧ l.query.accepts (s.objects e.object) = true

theorem sound_nothing (late : Bool) (s : State Obj) : l.Sound E (nothing late) s := by
  intro e he
  cases he

theorem examine_ensures (hP : Steady rely l.registry P) {e : Entry} (he : E e) (locked : Option LockTerms) (late : Bool)
    {s : State Obj} (hs : P s) :
    (l.examine locked late e).Ensures rely P s fun found t => P t ∧ ∀ f, found = some f → l.Sound E f t := by
  simp only [examine, Activity.ensures_bind, Activity.ensures_get]
  split
  · next haccept =>
    refine ⟨hs, ?_⟩
    rintro _ ⟨⟩ e' he'
    cases he'
    exact ⟨he, haccept⟩
  · cases locked with
    | none => exact ⟨hs, by simp⟩
    | some terms => exact ⟨hP.locks (s.relocks_unlock _ _ _) hs, by simp⟩

/-- Whatever is done about a contended entry, going through the entries is sound if that is. -/
theorem walk_ensures (hP : Steady rely l.registry P)
    {onContention : Option (LockTerms → Entry → Bool → Doing Obj Finding)}
    (hwait : ∀ wait, onContention = some wait → ∀ terms e late s, E e → P s →
      (wait terms e late).Ensures rely P s fun f t => P t ∧ l.Sound E f t) :
    ∀ (entries : List Entry) (late : Bool) (s : State Obj), (∀ e ∈ entries, E e) → P s →
      (l.walk onContention entries late).Ensures rely P s fun f t => P t ∧ l.Sound E f t
  | [], late, s, _, hs => ⟨hs, sound_nothing late s⟩
  | e :: rest, late, s, hE, hs => by
    have he := hE e List.mem_cons_self
    have ih (late : Bool) (t : State Obj) (ht : P t) :=
      walk_ensures hP hwait rest late t (fun e he => hE e (List.mem_cons_of_mem _ he)) ht
    -- Where the entry is not found to match, the walk goes on.
    have hexamine (locked : Option LockTerms) (t : State Obj) (ht : P t) {ends : Option Finding → State Obj → Prop}
        (hnone : ∀ u, P u → ends none u) (hsome : ∀ f u, P u → l.Sound E f u → ends (some f) u) :
        (l.examine locked late e).Ensures rely P t ends := by
      refine (examine_ensures hP he locked late ht).mono (fun _ => id) ?_
      rintro (_ | f) u ⟨hu, hf⟩
      · exact hnone u hu
      · exact hsome f u hu (hf f rfl)
    simp only [walk, Activity.ensures_bind, Activity.ensures_get]
    cases l.locking? s with
    | none => exact Activity.ensures_bind.mpr (hexamine none s hs (ih late) fun f u hu hf => ⟨hu, hf⟩)
    | some terms =>
      simp only [Activity.ensures_bind, Activity.ensures_modifyGet]
      have ht : P (s.tryLock l.registry terms.owner e.object).2 := hP.locks (s.relocks_tryLock _ _ _) hs
      split
      · exact Activity.ensures_bind.mpr (hexamine (some terms) _ ht (ih late) fun f u hu hf => ⟨hu, hf⟩)
      · cases onContention with
        | none => exact ih true _ ht
        | some wait => exact hwait wait rfl terms e late _ he ht

theorem mem_candidatesAfter {r : Registry} {q : Query} {seen : Region} {e : Entry}
    (h : e ∈ r.candidatesAfter q seen) : e ∈ r.entries ∧ q.region.overlaps e.region = true := by
  rw [Registry.candidatesAfter, List.mem_filter] at h
  exact ⟨(List.dropWhile_suffix _).subset h.1, h.2⟩

theorem search_ensures (hP : Steady rely l.registry P)
    (hE : ∀ s, P s → ∀ e ∈ (s.registry l.registry).entries, l.query.region.overlaps e.region = true → E e) :
    ∀ (patience : Nat) (entries : List Entry) (late : Bool) (s : State Obj), (∀ e ∈ entries, E e) → P s →
      (l.search patience entries late).Ensures rely P s fun f t => P t ∧ l.Sound E f t
  | 0, entries, late, s, he, hs => walk_ensures hP (by simp) entries late s he hs
  | patience + 1, entries, late, s, he, hs => by
    refine walk_ensures hP ?_ entries late s he hs
    rintro _ ⟨⟩ terms e late s he hs
    have hafter (t : State Obj) (ht : P t) (late : Bool) :=
      search_ensures hP hE patience ((t.registry l.registry).candidatesAfter l.query e.region) late t
        (fun e he => hE t ht e (mem_candidatesAfter he).1 (mem_candidatesAfter he).2) ht
    simp only [resume, Activity.ensures_bind, Activity.ensures_await]
    refine ⟨hs, fun wakeup t hst => ?_⟩
    have ht : P t := hP.others hst hs
    split
    · rw [Activity.ensures_bind]
      refine (examine_ensures hP he (some terms) late ht).mono (fun _ => id) ?_
      rintro (_ | f) u ⟨hu, hf⟩
      · exact hafter u hu late
      · exact ⟨hu, hf f rfl⟩
    · exact hafter t ht true

/-- A look-up keeps what is steady, and finds an entry of the registry that the query accepts. -/
theorem run_ensures (hP : Steady rely l.registry P)
    (hE : ∀ s, P s → ∀ e ∈ (s.registry l.registry).entries, l.query.region.overlaps e.region = true → E e)
    (patience : Nat) {s : State Obj} (hs : P s) :
    (l.run patience).Ensures rely P s fun f t => P t ∧ l.Sound E f t := by
  simp only [run, Activity.ensures_bind, Activity.ensures_get]
  exact search_ensures hP hE _ _ false s
    (fun e he => hE s hs e (Registry.mem_candidates_iff.mp he).1 (Registry.mem_candidates_iff.mp he).2) hs

/-! ### Without contention -/

/-- Nobody else holds a lock that the look-up could wait for. -/
def Free (l : Lookup) (s : State Obj) : Prop :=
  ∀ terms, l.locking? s = some terms → (s.registry l.registry).locks.OwnedBy terms.owner

/-- What a look-up comes to that meets no lock of anybody else. Where it takes no locks it changes nothing at
all. -/
structure Plain (l : Lookup) (entries : List Entry) (s : State Obj) (f : Finding) (t : State Obj) : Prop where
  bare : t.bare = s.bare
  free : l.Free t
  entry : f.entry = entries.find? fun e => l.query.accepts (s.objects e.object)
  lock : f.lock ≠ .timedOut
  unlocked : l.locking? s = none → t = s ∧ f.lock = .notRequired

omit [ManagedObject Obj] in
theorem locking?_eq_some {s : State Obj} {terms : LockTerms} : l.locking? s = some terms ↔
    l.terms = some terms ∧ (s.registry l.registry).locksFor terms.owner l.query = true :=
  Option.filter_eq_some_iff

omit [ManagedObject Obj] in
theorem locking?_eq_of_bare {s t : State Obj} (h : t.bare = s.bare) : l.locking? t = l.locking? s := by
  simp only [locking?, Registry.locksFor, State.locking_eq_of_bare h]

theorem walk_free (onContention : Option (LockTerms → Entry → Bool → Doing Obj Finding)) :
    ∀ (entries : List Entry) (s : State Obj), l.Free s →
      (l.walk onContention entries false).Ensures rely (fun _ => False) s (l.Plain entries s)
  | [], s, hs => ⟨rfl, hs, rfl, by simp [nothing], fun _ => ⟨rfl, rfl⟩⟩
  | e :: rest, s, hs => by
    simp only [walk, Activity.ensures_bind, Activity.ensures_get]
    cases hlocking : l.locking? s with
    | none =>
      simp only [examine, Activity.ensures_bind, Activity.ensures_get]
      split
      · next haccept => exact ⟨rfl, hs, by simp [haccept], by simp, fun _ => ⟨rfl, rfl⟩⟩
      · next hreject =>
        refine (walk_free onContention rest s hs).mono (fun _ => id) fun f t h => ?_
        exact ⟨h.bare, h.free, by simp [h.entry, hreject], h.lock, h.unlocked⟩
    | some terms =>
      have hfree {t : State Obj} (hbare : t.bare = s.bare) (h : (t.registry l.registry).locks.OwnedBy terms.owner) :
          l.Free t := by
        intro terms' hterms'
        rw [locking?_eq_of_bare hbare, hlocking] at hterms'
        exact Option.some.inj hterms' ▸ h
      obtain ⟨htaken, hown⟩ := State.ownedBy_tryLock (hs terms hlocking) e.object
      have hbare := s.bare_tryLock l.registry terms.owner e.object
      generalize htry : s.tryLock l.registry terms.owner e.object = taken at htaken hown hbare
      obtain ⟨taken, t⟩ := taken
      cases htaken
      have hobjects : t.objects = s.objects := State.objects_eq_of_bare hbare
      simp only [Activity.ensures_bind, Activity.ensures_modifyGet, htry, if_true, examine, Activity.ensures_get,
        hobjects]
      split
      · next haccept => exact ⟨hbare, hfree hbare hown, by simp [haccept], by simp [heldStatus], by simp [hlocking]⟩
      · next hreject =>
        have hbare' : (t.unlock l.registry terms.owner e.object).2.bare = s.bare := (t.bare_unlock _ _ _).trans hbare
        have hfree' := hfree hbare' (State.ownedBy_unlock hown)
        refine (walk_free onContention rest _ hfree').mono (fun _ => id) fun f u h => ?_
        refine ⟨h.bare.trans hbare', h.free, ?_, h.lock, by simp [hlocking]⟩
        simp [h.entry, hreject, State.objects_eq_of_bare hbare']

/-- A look-up without contention does not wait, and finds the first candidate that the query accepts. -/
theorem run_free (patience : Nat) {s : State Obj} (hs : l.Free s) :
    (l.run patience).Ensures rely (fun _ => False) s
      (l.Plain ((s.registry l.registry).candidates l.query) s) := by
  simp only [run, Activity.ensures_bind, Activity.ensures_get]
  cases ((s.registry l.registry).candidates l.query).length + patience with
  | zero => exact walk_free _ _ s hs
  | succ waits => exact walk_free _ _ s hs

omit [ManagedObject Obj] in
theorem free_of_ownedBy {terms : LockTerms} (hterms : l.terms = some terms) {s : State Obj}
    (hs : (s.registry l.registry).locks.OwnedBy terms.owner) : l.Free s := by
  intro terms' hterms'
  obtain rfl := Option.some.inj (hterms.symm.trans (locking?_eq_some.mp hterms').1)
  exact hs

/-- Whose locks alone there were, has the locks alone afterwards. -/
theorem Plain.ownedBy {entries : List Entry} {s t : State Obj} {f : Finding} (h : l.Plain entries s f t)
    {terms : LockTerms} (hterms : l.terms = some terms) (hs : (s.registry l.registry).locks.OwnedBy terms.owner) :
    (t.registry l.registry).locks.OwnedBy terms.owner := by
  cases hlocking : l.locking? s with
  | none => exact (h.unlocked hlocking).1 ▸ hs
  | some terms' =>
    obtain rfl := Option.some.inj (hterms.symm.trans (locking?_eq_some.mp hlocking).1)
    exact h.free terms (locking?_eq_of_bare h.bare ▸ hlocking)

/-- A look-up that takes no locks does not wait, and changes nothing. -/
theorem run_unlocked (hl : l.terms = none) (patience : Nat) (s : State Obj) :
    (l.run patience).Ensures rely (fun _ => False) s fun _ t => t = s := by
  have hlocking : l.locking? s = none := by simp [locking?, hl]
  have hfree : l.Free s := by
    intro terms hterms
    cases hlocking.symm.trans hterms
  exact (run_free patience hfree).mono (fun _ => id) fun f t h => (h.unlocked hlocking).1

end Lookup

end Responder
