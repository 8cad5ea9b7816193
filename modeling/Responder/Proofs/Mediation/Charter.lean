import Responder.Proofs.Agent
import Responder.Proofs.Reading
import Responder.Proofs.Schedule
import Responder.Proofs.Set.Turn
import Responder.Proofs.Store
import Responder.Proofs.View

/-! What an agent has to have established of whoever it calls an object for (`Step.Mediated`), and what the calls can
    change of the stores among its objects (`Step.Confined`). Both are said of the journal, which tells all that becomes
    of the objects (`replay`). `Charter.Upheld` is what every part of a run keeps of a state; what it asks of a call is
    `Charter.Licenses`. -/

namespace Responder

variable {Obj : Type}

/-- What is established of somebody before objects are called to serve a message on his behalf: it is a request, he goes
by the name that the message has or that its community stands for, the engine is one of the agent's, and access control
has given him a view. -/
structure Agent.Vouches (a : Agent Obj) (m : Inbound) (who : Requester) : Prop where
  request : m.pdu.kind ≠ .response ∧ m.pdu.kind ≠ .report
  sender : who.kind = m.pdu.kind ∧ who.version = m.version ∧ who.model = m.model ∧ who.level = m.level ∧
    who.peer = m.origin.peer
  /-- Of the mappings of the community the first one counts that the peer may use. -/
  mapped : ∀ communities, a.communities = some communities → m.version.isCommunityBased = true →
    ∃ mapping, (communities.mappings m.securityName).find? (communities.admits m.origin.peer.host) = some mapping ∧
      who.securityName = mapping.securityName ∧ who.engine = mapping.engine ∧ who.context = mapping.context
  unmapped : a.communities = none ∨ m.version.isCommunityBased = false →
    who.securityName = m.securityName ∧ who.engine = m.engine ∧ who.context = m.context
  engine : a.settings.isOwnEngine who.engine = true
  view : ∀ tables, a.access = some tables → ∃ name, who.view = some name ∧
    tables.viewName? who.context who.securityName who.model who.level
      (if m.pdu.kind = .set then .write else .read) = some name

/-- The item is for one of the variables that the message asks for, and that may be touched. -/
def Agent.Concedes (a : Agent Obj) (m : Inbound) (who : Requester) (x : Item) : Prop :=
  ∃ b, m.pdu.bindings[x.index]? = some b ∧ a.policy.allows who b.oid = true

/-- The step serves the message on behalf of somebody who is vouched for. Unless it is part of a search, the
variable that it was asked for may be touched. -/
structure Step.Mediated (a : Agent Obj) (m : Inbound) (st : Step) : Prop extends a.Vouches m st.who where
  conceded : st.callback ≠ .next → a.Concedes m st.who st.before

section Replay
variable [ManagedObject Obj]

/-- What becomes of the objects in a step. -/
def Step.act (st : Step) (objects : ObjectId → Obj) : ObjectId → Obj :=
  match st.object with
  | none => objects
  | some id => fun other =>
    if other = id then (ManagedObject.call st.callback st.who st.before (objects id)).object else objects other

/-- What becomes of the objects in a sequence of steps. -/
def replay (objects : ObjectId → Obj) (steps : List Step) : ObjectId → Obj :=
  steps.foldl (fun objects st => st.act objects) objects

theorem replay_concat (objects : ObjectId → Obj) (steps : List Step) (st : Step) :
    replay objects (steps ++ [st]) = st.act (replay objects steps) := by
  rw [replay, List.foldl_append]
  rfl

/-- In the step a store stays a store, and of its variables only those change that somebody writes who may. -/
def Step.Confined [Store.Among Obj] (a : Agent Obj) (st : Step) (id : ObjectId) (objects : ObjectId → Obj) : Prop :=
  ∃ b b', objects id = Store.Among.put b ∧ st.act objects id = Store.Among.put b' ∧
    ∀ o, b'.value? o ≠ b.value? o →
      st.object = some id ∧ st.who.kind = .set ∧ a.policy.allows st.who o = true

end Replay

/-- What stays as it is while an agent runs: the agent itself, the messages that may be handed to it, the entries of its
registries, its objects as they are at first, and the stores among them that are watched. -/
structure Charter (Obj : Type) where
  agent : Agent Obj
  submitted : Inbound → Prop
  entries : Nat → List Entry
  objects : ObjectId → Obj
  stores : ObjectId → Option Store

namespace Charter

variable [ManagedObject Obj] [Store.Among Obj] (C : Charter Obj)

/-- The stores that are watched are there, and registered under their own regions, apart from everything else. -/
structure Sound : Prop where
  stores : ∀ id b, C.stores id = some b → C.objects id = Store.Among.put b ∧ b.WellFormed
  inside : ∀ registry, ∀ e ∈ C.entries registry, ∀ b, C.stores e.object = some b →
    e.region.toRange = (ManagedObject.region b).toRange
  apart : ∀ registry, ∀ e ∈ C.entries registry, (C.stores e.object).isSome = true →
    Registry.Ordered (C.entries registry)

variable {C}

/-! ### Items and requests -/

/-- The item addresses the variable of its binding in the message. -/
def Asked (pdu : Pdu) (context : ContextName) (x : Item) : Prop :=
  ∃ b, pdu.bindings[x.index]? = some b ∧ x.region = (Region.point b.oid).inContext (some context)

variable (C) in
/-- The entries that can be meant by an item. -/
def Answers (registry : Nat) (x : Item) (e : Entry) : Prop :=
  e ∈ C.entries registry ∧ x.region.overlaps e.region = true

variable (C) in
/-- An item of a request that writes. Its target, if it has one, can be meant by it, and may be touched. If a store
can be meant by it, then the item still names the variable that was asked for, and names one that the store can
hold as soon as the store has let it pass. -/
structure Aimed (registry : Nat) (m : Inbound) (who : Requester) (x : Item) : Prop where
  asked : Asked m.pdu who.context x
  target : ∀ id, x.target = some id →
    C.agent.policy.allows who x.region.lower = true ∧ ∃ e, C.Answers registry x e ∧ e.object = id
  named : ∀ e, C.Answers registry x e → ∀ b, C.stores e.object = some b → x.oid = x.region.lower
  holds : ∀ e, C.Answers registry x e → ∀ b, C.stores e.object = some b →
    x.prepared = true ∨ x.target.isSome = true ∧ x.hasError = false → b.holds x.oid = true

variable (C) in
/-- A request that writes. Where nothing is wrong with it, the items that are prepared have targets, so all have
when they are committed. -/
structure Poised (registry : Nat) (m : Inbound) (r : Request) : Prop where
  status : r.status.isError = false
  phase : r.phase ≠ .process
  items : ∀ x ∈ r.items, C.Aimed registry m r.requester x
  prepare : r.phase = .prepare → r.hasError = false → ∀ x ∈ r.items, x.complete = true → x.target.isSome = true
  commit : r.phase = .commit → ∀ x ∈ r.items, x.target.isSome = true

variable (C) in
/-- A request that is served for a message that was handed over. -/
structure Serves (registry : Nat) (m : Inbound) (r : Request) : Prop where
  submitted : C.submitted m
  vouched : C.agent.Vouches m r.requester
  pdu : r.pdu = m.pdu
  reading : m.pdu.kind ≠ .set → r.phase = .start ∨ r.phase = .process
  items : m.pdu.kind = .get → ∀ x ∈ r.items, Asked m.pdu r.requester.context x
  writing : m.pdu.kind = .set → C.Poised registry m r

variable (C) in
/-- What every part of a run keeps of the state. -/
structure Upheld (s : State Obj) : Prop where
  objects : s.objects = replay C.objects s.journal
  entries : ∀ registry, (s.registry registry).entries = C.entries registry
  mediated : ∀ st ∈ s.journal, st.object.isSome = true → ∃ m, C.submitted m ∧ st.Mediated C.agent m
  stores : ∀ id b₀, C.stores id = some b₀ → ∃ b, s.objects id = Store.Among.put b ∧ b.WellFormed ∧ b.shell = b₀.shell
  confined : ∀ past st, past ++ [st] <+: s.journal → ∀ id, (C.stores id).isSome = true →
    st.Confined C.agent id (replay C.objects past)
  parked : ∀ x ∈ s.outstanding.entries, ∀ p, x.parked = some p → ∃ m, C.Serves p.registry m p.request

/-! ### States -/

/-- Nothing that matters has changed from one state to the other, but that less may be parked. -/
structure Undisturbed (s t : State Obj) : Prop where
  objects : t.objects = s.objects
  journal : t.journal = s.journal
  entries : ∀ registry, (t.registry registry).entries = (s.registry registry).entries
  parked : ∀ x ∈ t.outstanding.entries, ∀ p, x.parked = some p → ∃ y ∈ s.outstanding.entries, y.parked = some p

section States
variable {s t u : State Obj}

omit [ManagedObject Obj] [Store.Among Obj] in
theorem Undisturbed.trans (h : Undisturbed s t) (h' : Undisturbed t u) : Undisturbed s u where
  objects := h'.objects.trans h.objects
  journal := h'.journal.trans h.journal
  entries registry := (h'.entries registry).trans (h.entries registry)
  parked x hx p hp := by
    obtain ⟨y, hy, hp⟩ := h'.parked x hx p hp
    exact h.parked y hy p hp

omit [ManagedObject Obj] [Store.Among Obj] in
theorem undisturbed_of_bare (h : t.bare = s.bare) : Undisturbed s t where
  objects := State.objects_eq_of_bare h
  journal := State.journal_eq_of_bare h
  entries := State.entries_eq_of_bare h
  parked x hx p hp := by
    have houtstanding : t.outstanding = s.outstanding := congrArg (·.outstanding) h
    exact ⟨x, houtstanding ▸ hx, hp⟩

theorem Upheld.undisturbed (h : C.Upheld s) (hst : Undisturbed s t) : C.Upheld t where
  objects := by rw [hst.objects, hst.journal, h.objects]
  entries registry := (hst.entries registry).trans (h.entries registry)
  mediated := hst.journal ▸ h.mediated
  stores := hst.objects ▸ h.stores
  confined := hst.journal ▸ h.confined
  parked x hx p hp := by
    obtain ⟨y, hy, hp⟩ := hst.parked x hx p hp
    exact h.parked y hy p hp

variable (C) in
theorem lasting : Lasting C.Upheld where
  locks hbare h := h.undisturbed (undisturbed_of_bare hbare)
  time _ h := h.undisturbed ⟨rfl, rfl, fun _ => rfl, fun x hx _ hp => ⟨x, hx, hp⟩⟩

variable (C) in
/-- What is asked of a call: somebody is vouched for who may make it, and if it is to change a store that is
watched, then in a variable that the store can hold and that he may write. -/
structure Licenses (who : Requester) (callback : Callback) (id : ObjectId) (x : Item) : Prop where
  vouched : ∃ m, C.submitted m ∧ C.agent.Vouches m who ∧ (callback ≠ .next → C.agent.Concedes m who x)
  harmless : callback = .commit ∨ callback = .undo → ∀ b, C.stores id = some b →
    who.kind = .set ∧ b.holds x.oid = true ∧ C.agent.policy.allows who x.oid = true

/-- A call that is licensed. -/
theorem Upheld.call (h : C.Upheld s) {who : Requester} {callback : Callback} {id : ObjectId} {x : Item}
    (hlicensed : C.Licenses who callback id x) : C.Upheld (s.call callback who id x).2 := by
  let st : Step := ⟨who, callback, some id, x, (s.call callback who id x).1.1, (s.call callback who id x).1.2⟩
  have hjournal : (s.call callback who id x).2.journal = s.journal ++ [st] := rfl
  have hact : (s.call callback who id x).2.objects = st.act s.objects := rfl
  have hstores (other : ObjectId) (b₀ : Store) (hb₀ : C.stores other = some b₀) : ∃ b b', s.objects other =
      Store.Among.put b ∧ st.act s.objects other = Store.Among.put b' ∧ b'.WellFormed ∧ b'.shell = b₀.shell ∧
        ∀ o, b'.value? o ≠ b.value? o →
          st.object = some other ∧ st.who.kind = .set ∧ C.agent.policy.allows st.who o = true := by
    obtain ⟨b, hobject, hb, hshell⟩ := h.stores other b₀ hb₀
    by_cases hother : other = id
    · subst hother
      obtain ⟨hb', hshell', hchanges⟩ := Store.call_changes hb callback who x fun hwrites => by
        rw [Store.holds_of_shell hshell]
        exact (hlicensed.harmless hwrites b₀ hb₀).2.1
      refine ⟨b, _, hobject, ?_, hb', hshell'.trans hshell, fun o hne => ?_⟩
      · rw [← hact]
        exact (State.call_put hobject callback who x).2
      · obtain ⟨rfl, hwrites⟩ := hchanges o hne
        obtain ⟨hkind, -, hallows⟩ := hlicensed.harmless hwrites b₀ hb₀
        exact ⟨rfl, hkind, hallows⟩
    · exact ⟨b, b, hobject, (if_neg hother).trans hobject, hb, hshell, fun o hne => absurd rfl hne⟩
  refine ⟨?_, h.entries, fun st' hst' => ?_, fun other b₀ hb₀ => ?_, fun past st' hpast other hwatched => ?_, h.parked⟩
  · rw [hact, hjournal, replay_concat, h.objects]
  · rcases List.mem_append.mp hst' with hst' | hst'
    · exact h.mediated st' hst'
    · obtain rfl := List.mem_singleton.mp hst'
      obtain ⟨m, hm, hvouched, hconceded⟩ := hlicensed.vouched
      exact fun _ => ⟨m, hm, hvouched, hconceded⟩
  · obtain ⟨-, b', -, hobject, hb', hshell, -⟩ := hstores other b₀ hb₀
    exact ⟨b', hact ▸ hobject, hb', hshell⟩
  · rw [hjournal, List.prefix_concat_iff] at hpast
    rcases hpast with hpast | hpast
    · obtain ⟨rfl, hst'⟩ := List.append_inj' hpast rfl
      obtain rfl : st' = st := List.singleton_inj.mp hst'
      obtain ⟨b₀, hb₀⟩ := Option.isSome_iff_exists.mp hwatched
      obtain ⟨b, b', hobject, hobject', -, -, hchanges⟩ := hstores other b₀ hb₀
      rw [h.objects] at hobject hobject'
      exact ⟨b, b', hobject, hobject', hchanges⟩
    · exact h.confined past st' hpast other hwatched

/-- No object is called for an item that is refused. -/
theorem Upheld.refuse (h : C.Upheld s) (callback : Callback) (who : Requester) (x : Item) (status : Status) :
    C.Upheld (s.refuse callback who x status).2 := by
  let refused : Step := ⟨who, callback, none, x, x.setError status, .ok false⟩
  refine ⟨?_, h.entries, fun st hst => ?_, h.stores, fun past st hpast other hwatched => ?_, h.parked⟩
  · exact h.objects.trans (replay_concat C.objects s.journal refused).symm
  · rcases List.mem_append.mp hst with hst | hst
    · exact h.mediated st hst
    · obtain rfl := List.mem_singleton.mp hst
      exact fun hsome => absurd hsome Bool.false_ne_true
  · rcases List.prefix_concat_iff.mp hpast with hpast | hpast
    · obtain ⟨rfl, hst⟩ := List.append_inj' hpast rfl
      obtain rfl := List.singleton_inj.mp hst
      obtain ⟨b₀, hb₀⟩ := Option.isSome_iff_exists.mp hwatched
      obtain ⟨b, hobject, -⟩ := h.stores other b₀ hb₀
      rw [h.objects] at hobject
      exact ⟨b, b, hobject, hobject, fun o hne => absurd rfl hne⟩
    · exact h.confined past st hpast other hwatched

end States

/-! ### Look-ups -/

section Looking
variable {registry : Nat} {who : Requester} {s : State Obj}

/-- A look-up finds an entry that can be meant and whose object may be called. -/
theorem look_ensures (h : C.Upheld s) (q : Query) (terms : Option LockTerms) (patience : Nat) :
    (Lookup.run ⟨registry, q, terms⟩ patience : Doing Obj Finding).Ensures (fun _ => C.Upheld) C.Upheld s
      fun f t => C.Upheld t ∧ ∀ e, f.entry = some e →
        (e ∈ C.entries registry ∧ q.region.overlaps e.region = true) ∧ q.accepts (t.objects e.object) = true :=
  Lookup.run_ensures (E := fun e => e ∈ C.entries registry ∧ q.region.overlaps e.region = true) (C.lasting.steady _)
    (fun _ hs _ he hover => ⟨hs.entries registry ▸ he, hover⟩) patience h

theorem release_keeps (f : Finding) (registry : Nat) (who : Requester) (object : ObjectId) :
    Keeps C.Upheld (f.release registry who object) := by
  intro s hs
  refine Progress.Ensures.mono (f.release_ensures registry who object s) (fun _ => id) fun _ t ht => ?_
  exact C.lasting.locks ht.1 hs

end Looking

end Charter
end Responder
