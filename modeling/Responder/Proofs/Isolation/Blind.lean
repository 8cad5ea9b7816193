import Responder.Proofs.Conduct
import Responder.Proofs.Isolation.Sight
import Responder.Proofs.Schedule

/-! Activities that do not see what a context does not see. Such an activity comes to the same end, or to the same wait,
    whether the entries of other contexts are there or not, and so does what is left of it after any wait
    (`Activity.Blind`). All the while something may be kept of the state (`Lasting`), on which the blindness may rest.
    One thing after another is blind if each of them is; and so look-ups are blind, and with them the services
    (`Blind.conduct`). -/

namespace Responder

variable {Obj α β : Type} {c : ContextName} {I : State Obj → Prop} {post : α → Prop} {after : β → Prop}

namespace Progress

/-- The progress from the state on that a context sees; what is left of the activity stays as it is. -/
def seenBy (c : ContextName) : Progress (State Obj) α → Progress (State Obj) α
  | done a s => done a (s.seenBy c)
  | waiting wait s resume => waiting wait (s.seenBy c) resume

/-- Whatever is left of the activity does not see what the context does not see. It keeps something of the state, and
its results pass a test. -/
def Blind (c : ContextName) (I : State Obj → Prop) (post : α → Prop) : Progress (State Obj) α → Prop
  | done a s => I s ∧ post a
  | waiting _ s resume => I s ∧ ∀ wakeup t, I t →
      resume wakeup (t.seenBy c) = (resume wakeup t).seenBy c ∧ (resume wakeup t).Blind c I post

theorem Blind.before {p : Progress (State Obj) α} (h : p.Blind c I post) (expiry : Instant) :
    (p.seenBy c).before expiry = (p.before expiry).seenBy c ∧
      (p.before expiry).Blind c I fun result => ∀ a, result = some a → post a := by
  induction p with
  | done a s => exact ⟨rfl, h.1, fun _ hb => Option.some.inj hb ▸ h.2⟩
  | waiting wait s resume ih =>
    simp only [seenBy, Progress.before, Blind, true_and]
    refine ⟨h.1, fun wakeup t ht => ?_⟩
    obtain ⟨hseen, hblind⟩ := h.2 wakeup t ht
    cases wakeup with
    | expired => exact ⟨rfl, ht, fun _ hb => by cases hb⟩
    | granted =>
      obtain ⟨heq, hleft⟩ := ih .granted t hblind
      exact ⟨(congrArg (Progress.before expiry) hseen).trans heq, hleft⟩
    | timedOut =>
      obtain ⟨heq, hleft⟩ := ih .timedOut t hblind
      exact ⟨(congrArg (Progress.before expiry) hseen).trans heq, hleft⟩

theorem Blind.settle {p : Progress (State Obj) α} (h : p.Blind c I post) (now : Instant) :
    (p.seenBy c).settle now = (p.settle now).seenBy c ∧ (p.settle now).Blind c I post := by
  induction p with
  | done a s => exact ⟨rfl, h⟩
  | waiting wait s resume ih =>
    simp only [seenBy, Progress.settle]
    obtain ⟨hseen, hblind⟩ := h.2 .expired s h.1
    split
    · rw [hseen]
      exact ih .expired s hblind
    · exact ⟨rfl, h⟩

end Progress

/-- The activity does not see what the context does not see, as long as something holds of the state, which it keeps.
Its results pass a test. -/
def Activity.Blind (c : ContextName) (I : State Obj → Prop) (act : Doing Obj α) (post : α → Prop) : Prop :=
  ∀ s, I s → act (s.seenBy c) = (act s).seenBy c ∧ (act s).Blind c I post

theorem Activity.modifyGet_apply (f : State Obj → α × State Obj) (s : State Obj) :
    (modifyGet f : Doing Obj α) s = .done (f s).1 (f s).2 := rfl

namespace Activity.Blind

theorem pure {a : α} (ha : post a) : Blind c I (Pure.pure a : Doing Obj α) post := fun _ hs => ⟨rfl, hs, ha⟩

theorem bind {act : Doing Obj α} {f : α → Doing Obj β} (h : Blind c I act post)
    (hf : ∀ a, post a → Blind c I (f a) after) : Blind c I (act >>= f) after := by
  have hprogress (p : Progress (State Obj) α) (hp : p.Blind c I post) :
      (p.seenBy c).bind f = (p.bind f).seenBy c ∧ (p.bind f).Blind c I after := by
    induction p with
    | done a s => exact hf a hp.2 s hp.1
    | waiting wait s resume ih =>
      refine ⟨rfl, hp.1, fun wakeup t ht => ?_⟩
      obtain ⟨hseen, hblind⟩ := hp.2 wakeup t ht
      obtain ⟨heq, hleft⟩ := ih wakeup t hblind
      exact ⟨(congrArg (fun p : Progress (State Obj) α => p.bind f) hseen).trans heq, hleft⟩
  intro s hs
  obtain ⟨hseen, hblind⟩ := h s hs
  obtain ⟨heq, hleft⟩ := hprogress (act s) hblind
  exact ⟨(congrArg (fun p : Progress (State Obj) α => p.bind f) hseen).trans heq, hleft⟩

theorem modifyGet {f : State Obj → α × State Obj}
    (h : ∀ s, I s → f (s.seenBy c) = ((f s).1, (f s).2.seenBy c) ∧ I (f s).2 ∧ post (f s).1) :
    Blind c I (MonadState.modifyGet f : Doing Obj α) post := by
  intro s hs
  obtain ⟨hseen, hkept, hpost⟩ := h s hs
  refine ⟨?_, hkept, hpost⟩
  rw [Activity.modifyGet_apply, hseen]
  rfl

/-- What only reads something that the context sees. -/
theorem read {f : State Obj → Doing Obj β} (h : ∀ s, I s → f (s.seenBy c) = f s ∧ Blind c I (f s) after) :
    Blind c I (get >>= f) after := by
  intro s hs
  obtain ⟨hseen, hblind⟩ := h s hs
  refine ⟨?_, (hblind s hs).2⟩
  show f (s.seenBy c) (s.seenBy c) = _
  rw [hseen]
  exact (hblind s hs).1

theorem before {act : Doing Obj α} (h : Blind c I act post) (expiry : Instant) :
    Blind c I (act.before expiry) fun result => ∀ a, result = some a → post a := by
  intro s hs
  obtain ⟨hseen, hblind⟩ := h s hs
  obtain ⟨heq, hleft⟩ := hblind.before expiry
  exact ⟨(congrArg (Progress.before expiry) hseen).trans heq, hleft⟩

theorem await (wait : Wait) : Blind c I (Activity.await wait : Doing Obj Bool) fun _ => True :=
  fun _ hs => ⟨rfl, hs, fun _ _ ht => ⟨rfl, ht, trivial⟩⟩

end Activity.Blind

/-! ### Look-ups -/

namespace Lookup

variable [ManagedObject Obj] {l : Lookup} {E : Entry → Prop}

open Activity (Blind)

omit [ManagedObject Obj] in
theorem locking?_seenBy (s : State Obj) : l.locking? (s.seenBy c) = l.locking? s := by
  rw [locking?, locking?, State.registry_seenBy]
  rfl

/-- What an examination does to the state is to unlock what is not accepted. -/
theorem examine_eq (l : Lookup) (locked : Option LockTerms) (late : Bool) (e : Entry) :
    (l.examine locked late e : Doing Obj (Option Finding)) = modifyGet fun s =>
      if l.query.accepts (s.objects e.object)
      then (some ⟨some e, if locked.isSome then heldStatus late else .notRequired⟩, s)
      else (none, (locked.map fun terms => (s.unlock l.registry terms.owner e.object).2).getD s) := by
  funext s
  rw [Activity.modifyGet_apply]
  show (if l.query.accepts (s.objects e.object) then _ else _ : Doing Obj (Option Finding)) s = _
  by_cases haccept : l.query.accepts (s.objects e.object) = true
  · simp only [if_pos haccept]
    rfl
  · simp only [if_neg haccept]
    cases locked <;> rfl

theorem examine_blind (hI : Lasting I) {e : Entry} (he : E e) (locked : Option LockTerms) (late : Bool) :
    Blind c I (l.examine locked late e : Doing Obj (Option Finding))
      fun found => ∀ f, found = some f → ∀ e, f.entry = some e → E e := by
  rw [examine_eq]
  refine .modifyGet fun s hs => ?_
  have hobjects : (s.seenBy c).objects = s.objects := rfl
  rw [hobjects]
  split
  · refine ⟨rfl, hs, fun f hf e' he' => ?_⟩
    cases hf
    cases he'
    exact he
  · refine ⟨?_, ?_, by simp⟩
    · cases locked with
      | none => rfl
      | some terms => exact congrArg (fun x => (none, x.2)) (s.unlock_seenBy c _ _ _)
    · cases locked with
      | none => exact hs
      | some terms => exact hI.locks (s.bare_unlock _ _ _) hs

/-- Whatever is done about a contended entry, going through the entries is blind if that is. -/
theorem walk_blind (hI : Lasting I) {onContention : Option (LockTerms → Entry → Bool → Doing Obj Finding)}
    (hwait : ∀ wait, onContention = some wait → ∀ terms e late, E e →
      Blind c I (wait terms e late) fun f => ∀ e, f.entry = some e → E e) :
    ∀ (entries : List Entry) (late : Bool), (∀ e ∈ entries, E e) →
      Blind c I (l.walk onContention entries late) fun f => ∀ e, f.entry = some e → E e
  | [], late, _ => .pure fun e he => by cases he
  | e :: rest, late, hE => by
    obtain ⟨he, hrest⟩ := List.forall_mem_cons.mp hE
    have ih (late : Bool) := walk_blind hI hwait rest late hrest
    -- Where the entry is not found to match, the walk goes on.
    have hexamine (locked : Option LockTerms) {k : Option Finding → Doing Obj Finding}
        (hnone : k none = l.walk onContention rest late) (hsome : ∀ f, k (some f) = pure f) :
        Blind c I (l.examine locked late e >>= k) fun f => ∀ e, f.entry = some e → E e := by
      refine .bind (examine_blind hI he locked late) ?_
      rintro (_ | f) hf
      · rw [hnone]
        exact ih late
      · rw [hsome]
        exact .pure (hf f rfl)
    rw [walk]
    refine .read fun s hs => ⟨by rw [locking?_seenBy], ?_⟩
    cases l.locking? s with
    | none => exact hexamine none rfl fun _ => rfl
    | some terms =>
      have htaken : Blind c I (modifyGet fun s : State Obj => s.tryLock l.registry terms.owner e.object)
          fun _ => True :=
        .modifyGet fun s hs => ⟨s.tryLock_seenBy c _ _ _, hI.locks (s.bare_tryLock _ _ _) hs, trivial⟩
      refine .bind htaken fun taken _ => ?_
      split
      · exact hexamine (some terms) rfl fun _ => rfl
      · cases onContention with
        | some wait => exact hwait wait rfl terms e late he
        | none => exact ih true

variable (hI : Lasting I) (hordered : ∀ s, I s → ∀ number, Registry.Ordered (s.registry number).entries)
  (hE : ∀ s, I s → ∀ e ∈ (s.registry l.registry).entries, l.query.region.overlaps e.region = true → E e)
  (hcontext : l.query.region.context = some c)
include hI hordered hE hcontext

theorem search_blind : ∀ (patience : Nat) (entries : List Entry) (late : Bool), (∀ e ∈ entries, E e) →
    Blind c I (l.search patience entries late) fun f => ∀ e, f.entry = some e → E e
  | 0, entries, late, he => walk_blind hI (by simp) entries late he
  | patience + 1, entries, late, he => by
    refine walk_blind hI ?_ entries late he
    rintro _ ⟨⟩ terms e late he
    -- The candidates that are left do not depend on what the context does not see.
    have hrest (late : Bool) : Blind c I (do
        l.search patience (((← get).registry l.registry).candidatesAfter l.query e.region) late)
        fun f => ∀ e, f.entry = some e → E e := by
      refine .read fun s hs => ⟨?_, search_blind patience _ late fun e he => ?_⟩
      · rw [State.registry_seenBy, Registry.candidatesAfter_seenBy (hordered s hs _) hcontext]
      · exact hE s hs e (mem_candidatesAfter he).1 (mem_candidatesAfter he).2
    rw [resume]
    refine .bind (.await _) fun taken _ => ?_
    split
    · refine .bind (examine_blind hI he (some terms) late) ?_
      rintro (_ | f) hf
      · exact hrest late
      · exact .pure (hf f rfl)
    · exact hrest true

/-- A look-up in a context is blind, and finds an entry of the registry. -/
theorem run_blind (patience : Nat) : Blind c I (l.run patience) fun f => ∀ e, f.entry = some e → E e := by
  refine .read fun s hs => ⟨?_, search_blind hI hordered hE hcontext _ _ false fun e he => ?_⟩
  · rw [State.registry_seenBy, Registry.candidates_seenBy hcontext]
  · exact hE s hs e (Registry.mem_candidates_iff.mp he).1 (Registry.mem_candidates_iff.mp he).2

end Lookup

/-! ### Services -/

/-- All that a service does for somebody in the context is blind, as long as it calls only what may be called. -/
theorem Activity.Blind.conduct [ManagedObject Obj] (hI : Lasting I)
    (hordered : ∀ s, I s → ∀ number, Registry.Ordered (s.registry number).entries) {who : Requester}
    (hwho : who.context = c) {registry : Nat} {callable : ObjectId → Prop}
    (hfound : ∀ s, I s → ∀ e ∈ (s.registry registry).entries, e.region.seenIn c = true → callable e.object)
    (hcall : ∀ s callback object item, I s → callable object → I (s.call callback who object item).2)
    (hrefuse : ∀ s callback item status, I s → I (s.refuse callback who item status).2) (p : Policy) :
    Conduct p registry who callable fun {α : Type} (act : Doing Obj α) post => Activity.Blind c I act post where
  pure := .pure
  bind := .bind
  look region writes terms hregion _ := by
    have hcontext : (p.query who region writes).region.context = some c := hregion.trans (congrArg some hwho)
    exact Lookup.run_blind (l := ⟨registry, _, terms⟩) hI hordered
      (fun s hs e he hover => hfound s hs e he (Registry.seenIn_of_overlaps hcontext hover)) hcontext p.patience
  call callback _ object item hobject := by
    refine .modifyGet fun s hs => ⟨rfl, hcall s callback object item hs hobject, ?_⟩
    exact ⟨Item.editAll_region _ _, Item.editAll_target _ _⟩
  unlock object := .modifyGet fun s hs =>
    ⟨congrArg (fun x => (PUnit.unit, x.2)) (s.unlock_seenBy c _ _ _), hI.locks (s.bare_unlock _ _ _) hs, trivial⟩
  refuse callback item status := by
    refine .modifyGet fun s hs => ⟨rfl, hrefuse s callback item status hs, ?_⟩
    exact ⟨Item.setError_region _ _, Item.setError_target _ _⟩
  count region writes hregion hact := by
    have hcontext : (p.query who region writes).region.context = some c := hregion.trans (congrArg some hwho)
    refine .read fun s _ => ⟨?_, hact _⟩
    rw [State.registry_seenBy, Registry.candidates_seenBy hcontext]

end Responder
