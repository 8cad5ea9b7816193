import Responder.Proofs.Conduct
import Responder.Proofs.Custody.Alone
import Responder.Proofs.Drive

/-! What a request touches. One pass over a request that goes on alone takes and releases locks of the request's own in
    the registry that serves it, calls objects that are registered there, and changes nothing else that matters to
    other requests (`Touches`, `Agent.pass_touches`). -/

namespace Responder

variable {Obj : Type}

/-- An object is registered among the entries of a registry. -/
def Registers (entries : Nat → List Entry) (number : Nat) (object : ObjectId) : Prop :=
  ∃ e ∈ entries number, e.object = object

/-- The lock tables are sound, and the entries are those that were registered at first. -/
structure State.Tidy (entries : Nat → List Entry) (s : State Obj) : Prop where
  sound : ∀ number, (s.registry number).locks.Sound
  entries : ∀ number, (s.registry number).entries = entries number

/-- On somebody's behalf only locks of his own in one registry have been taken and released, and objects been called
that may be. -/
structure Touches (number : Nat) (who : Requester) (callable : ObjectId → Prop) (s t : State Obj) : Prop where
  mine : Locks.Changed who.transaction (s.registry number).locks (t.registry number).locks
  rest : ∀ other ≠ number, (t.registry other).locks = (s.registry other).locks
  entries : ∀ other, (t.registry other).entries = (s.registry other).entries
  locking : ∀ other, (t.registry other).locking = (s.registry other).locking
  outstanding : t.outstanding = s.outstanding
  transactions : t.transactions = s.transactions
  journal : ∃ steps, t.journal = s.journal ++ steps ∧ ∀ st ∈ steps, st.who = who ∧
    ∀ id, st.object = some id → callable id ∧ st.callback ∈ who.kind.callbacks

theorem Locks.Changed.refl {locks : Locks} (h : locks.Sound) (owner : TransactionId) : Changed owner locks locks :=
  ⟨h, fun _ _ => Iff.rfl⟩

theorem Locks.Changed.trans {t t' t'' : Locks} {owner : TransactionId} (h : Changed owner t t')
    (h' : Changed owner t' t'') : Changed owner t t'' :=
  ⟨h'.sound, fun x hx => (h'.others x hx).trans (h.others x hx)⟩

namespace Touches

variable {number : Nat} {who : Requester} {callable : ObjectId → Prop} {s t u : State Obj} {object : ObjectId}

theorem refl (hs : (s.registry number).locks.Sound) : Touches number who callable s s :=
  ⟨.refl hs _, fun _ _ => rfl, fun _ => rfl, fun _ => rfl, rfl, rfl, [], (List.append_nil _).symm, by simp⟩

theorem trans (h : Touches number who callable s t) (h' : Touches number who callable t u) :
    Touches number who callable s u where
  mine := h.mine.trans h'.mine
  rest other hother := (h'.rest other hother).trans (h.rest other hother)
  entries other := (h'.entries other).trans (h.entries other)
  locking other := (h'.locking other).trans (h.locking other)
  outstanding := h'.outstanding.trans h.outstanding
  transactions := h'.transactions.trans h.transactions
  journal := by
    obtain ⟨steps, hsteps, hall⟩ := h.journal
    obtain ⟨steps', hsteps', hall'⟩ := h'.journal
    refine ⟨steps ++ steps', ?_, List.forall_mem_append.mpr ⟨hall, hall'⟩⟩
    rw [hsteps', hsteps, List.append_assoc]

/-- What changes locks alone. -/
theorem of_bare (hbare : t.bare = s.bare)
    (hmine : Locks.Changed who.transaction (s.registry number).locks (t.registry number).locks)
    (hrest : ∀ other ≠ number, (t.registry other).locks = (s.registry other).locks) :
    Touches number who callable s t where
  mine := hmine
  rest := hrest
  entries := State.entries_eq_of_bare hbare
  locking := State.locking_eq_of_bare hbare
  outstanding := congrArg (fun s => s.outstanding) hbare
  transactions := congrArg (fun s => s.transactions) hbare
  journal := ⟨[], (State.journal_eq_of_bare hbare).trans (List.append_nil _).symm, by simp⟩

theorem of_later (hs : (s.registry number).locks.Sound) (h : s.Later t) : Touches number who callable s t := by
  obtain ⟨now, released, rfl⟩ := h
  exact ⟨.refl hs _, fun _ _ => rfl, fun _ => rfl, fun _ => rfl, rfl, rfl, [], (List.append_nil _).symm, by simp⟩

theorem of_setLocks {locks : Locks} (hs : (s.registry number).locks.Sound)
    (h : Locks.Changed who.transaction (s.registry number).locks locks) :
    Touches number who callable s (s.setLocks number locks) := by
  refine of_bare (s.bare_setLocks number locks) ?_ fun other hother => ?_
  · rw [State.registry_setLocks]
    split
    · exact h
    · exact .refl hs _
  · rw [State.registry_setLocks, if_neg fun hsame => hother hsame.1]

theorem tryLock (hs : (s.registry number).locks.Sound) (object : ObjectId) :
    Touches number who callable s (s.tryLock number who.transaction object).2 := by
  unfold State.tryLock
  split
  · next locks htake => exact of_setLocks hs (hs.take? htake).1
  · exact refl hs

theorem unlock (hs : (s.registry number).locks.Sound) (object : ObjectId) :
    Touches number who callable s (s.unlock number who.transaction object).2 := by
  unfold State.unlock
  split
  · next locks hrelease =>
    have hset : Touches number who callable s (s.setLocks number locks) := of_setLocks hs (hs.release? hrelease).1
    dsimp only
    split
    · exact hset
    · exact hset.trans (of_later hset.mine.sound ⟨_, _, rfl⟩)
  · exact refl hs

/-- A step of the requester's own, on an object that may be called if on any. -/
theorem enter (hs : (s.registry number).locks.Sound) {st : Step} (hwho : st.who = who)
    (hst : ∀ id, st.object = some id → callable id ∧ st.callback ∈ who.kind.callbacks) :
    Touches number who callable s (s.enter st) :=
  ⟨.refl hs _, fun _ _ => rfl, fun _ => rfl, fun _ => rfl, rfl, rfl, [st], rfl,
    List.forall_mem_singleton.mpr ⟨hwho, hst⟩⟩

theorem refuse (hs : (s.registry number).locks.Sound) (callback : Callback) (item : Item) (status : Status) :
    Touches number who callable s (s.refuse callback who item status).2 := enter hs rfl fun _ hid => by cases hid

theorem call [ManagedObject Obj] (hs : (s.registry number).locks.Sound) {callback : Callback}
    (hcallback : callback ∈ who.kind.callbacks) (hobject : callable object) (item : Item) :
    Touches number who callable s (s.call callback who object item).2 := by
  let st : Step := ⟨who, callback, some object, item, (s.call callback who object item).1.1,
    (s.call callback who object item).1.2⟩
  have hentered : Touches number who callable s (s.enter st) :=
    enter hs rfl fun id hid => ⟨Option.some.inj hid ▸ hobject, hcallback⟩
  exact ⟨hentered.mine, hentered.rest, hentered.entries, hentered.locking, hentered.outstanding,
    hentered.transactions, hentered.journal⟩

/-- Nobody else loses a lock. -/
theorem count_le (h : Touches number who callable s t) {other : Nat} (hs : (s.registry other).locks.Sound)
    {owner : TransactionId} (howner : owner ≠ who.transaction) (object : ObjectId) :
    (s.registry other).locks.count owner object ≤ (t.registry other).locks.count owner object := by
  by_cases hother : other = number
  · subst hother
    exact hs.count_le h.mine.sound (fun x hx hx' => (h.mine.others x (hx' ▸ howner)).mpr hx) object
  · exact Nat.le_of_eq (by rw [h.rest other hother])

theorem tidy {entries : Nat → List Entry} (h : Touches number who callable s t) (hs : s.Tidy entries) :
    t.Tidy entries where
  sound other := by
    by_cases hother : other = number
    · exact hother ▸ h.mine.sound
    · exact h.rest other hother ▸ hs.sound other
  entries other := (h.entries other).trans (hs.entries other)

end Touches

section Requests
variable [ManagedObject Obj] {entries : Nat → List Entry} {number : Nat} {who : Requester} {s : State Obj}

/-- All that a service does on somebody's behalf touches his own only. -/
theorem Touches.conduct (p : Policy) :
    Conduct p number who (Registers entries number) fun {α : Type} (act : Doing Obj α) post =>
      ∀ s, s.Tidy entries → act.Alone (Touches number who (Registers entries number) s) s
        fun a t => Touches number who (Registers entries number) s t ∧ post a where
  pure ha s hs := ⟨.refl (hs.sound number), ha⟩
  bind hact hf s hs := by
    rw [Activity.alone_bind]
    refine (hact s hs).mono (fun _ => id) fun a t ⟨ht, ha⟩ => ?_
    exact (hf a ha t (ht.tidy hs)).mono (fun _ hu => ht.trans hu) fun b u ⟨hu, hb⟩ => ⟨ht.trans hu, hb⟩
  look region writes terms _ howner s hs := by
    have hsound := hs.sound number
    have hmine {t : State Obj} (ht : s.Later t) : Touches number who (Registers entries number) s t :=
      .of_later hsound ht
    refine (Lookup.run_alone hsound p.patience).mono (fun _ => hmine) fun f t hfound => ?_
    cases hfound with
    | nothing hentry ht => exact ⟨hmine ht, fun e he => by simp [hentry] at he⟩
    | unlocked he hover hentry hterms hlock ht =>
      refine ⟨hmine ht, fun e' he' => ⟨e', ?_, rfl⟩⟩
      obtain rfl := Option.some.inj (hentry.symm.trans he')
      exact hs.entries number ▸ he
    | @locked e held _ he hover hentry hterms hlock htaken ht =>
      have hheld : terms = some held := (Lookup.locking?_eq_some.mp hterms).1
      have htried : Touches number who (Registers entries number) s
          (s.tryLock number who.transaction e.object).2 := .tryLock hsound e.object
      rw [howner held hheld] at ht
      refine ⟨htried.trans (.of_later htried.mine.sound ht), fun e' he' => ⟨e', ?_, rfl⟩⟩
      obtain rfl := Option.some.inj (hentry.symm.trans he')
      exact hs.entries number ▸ he
  call callback hcallback object item hobject s hs :=
    ⟨.call (hs.sound number) hcallback hobject item, Item.editAll_region _ _, Item.editAll_target _ _⟩
  unlock object s hs := ⟨.unlock (hs.sound number) object, trivial⟩
  refuse callback item status s hs :=
    ⟨.refuse (hs.sound number) callback item status, Item.setError_region _ _, Item.setError_target _ _⟩
  count _ _ _ hact s hs := hact _ s hs

/-- One pass over a request of a standard service touches what is the request's own, and leaves the request apt. -/
theorem Agent.pass_touches {a : Agent Obj} (hservices : a.services = Agent.standardServices) {p : Pending}
    (hp : p.request.Apt p.request.requester (Registers entries p.registry)) (hs : s.Tidy entries) :
    (a.pass p).Alone (fun _ => True) s fun out t =>
      Touches p.registry p.request.requester (Registers entries p.registry) s t ∧
        ∀ r, out = some r → r.1.Apt p.request.requester (Registers entries p.registry) := by
  have hpass {act : Doing Obj (Request × Option Error)}
      (hact : act.Alone (Touches p.registry p.request.requester (Registers entries p.registry) s) s fun out t =>
        Touches p.registry p.request.requester (Registers entries p.registry) s t ∧
          out.1.Apt p.request.requester (Registers entries p.registry)) := hact.before
    (fun t u ht hu => ht.trans (.of_later ht.mine.sound hu)) (a.expiry p.request)
  refine Activity.Alone.mono (hpass ?_) (fun _ _ => trivial) fun out t hout => ?_
  · split
    · next service hservice =>
      have hserves := List.find?_some hservice
      have hmem := List.mem_of_find?_eq_some hservice
      rw [hservices] at hmem
      exact (Touches.conduct a.policy).run hmem (hp.kind ▸ hserves) hp s hs
    · exact ⟨.refl (hs.sound p.registry), hp⟩
  · cases out with
    | none => exact ⟨hout, fun r hr => by cases hr⟩
    | some out => exact ⟨hout.1, fun r hr => Option.some.inj hr ▸ hout.2⟩

end Requests
end Responder
