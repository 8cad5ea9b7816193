import Responder.Proofs.Items
import Responder.Proofs.Reading

/-! Requests that are alone under way. Nobody else holds locks, so nothing that a service does for such a request has to
    wait (`Activity.Gives`), and what a look-up comes to depends on a few things only, which stay as they are while the
    request is served (`Solo.Holds`). So an item that its object has put off is aimed at the same object for as long as
    it is left open (`Solo.Owes`), and to serve it again is to make the same call again. -/

namespace Responder

/-! ### Activities that do not wait -/

namespace Activity

variable {σ α : Type}

/-- What comes of an activity that does not have to wait. -/
abbrev Gives (act : Activity σ α) (s : σ) (ends : α → σ → Prop) : Prop :=
  act.Ensures (fun _ _ => False) (fun _ => False) s ends

theorem gives_iff {act : Activity σ α} {s : σ} {ends : α → σ → Prop} :
    act.Gives s ends ↔ ∃ a t, act s = .done a t ∧ ends a t := by
  constructor
  · exact Progress.Ensures.done
  · rintro ⟨a, t, hdone, hends⟩
    show Progress.Ensures _ _ _ (act s)
    rw [hdone]
    exact hends

theorem gives_bind {β : Type} {act : Activity σ α} {f : α → Activity σ β} {s : σ} {ends : β → σ → Prop} :
    (act >>= f).Gives s ends ↔ act.Gives s fun a t => (f a).Gives t ends := ensures_bind

theorem Gives.and {act : Activity σ α} {s : σ} {ends ends' : α → σ → Prop} (h : act.Gives s ends)
    (h' : act.Gives s ends') : act.Gives s fun a t => ends a t ∧ ends' a t := by
  obtain ⟨a, t, hdone, hends⟩ := gives_iff.mp h
  obtain ⟨a', t', hdone', hends'⟩ := gives_iff.mp h'
  cases hdone.symm.trans hdone'
  exact gives_iff.mpr ⟨a, t, hdone, hends, hends'⟩

end Activity

/-! ### Calls that are put off -/

namespace Step

/-- The object has put the call off: it asks to be called again, and has reported neither an error nor a fault. -/
structure PutOff (st : Step) : Prop where
  answered : st.result = .ok true
  deferred : st.after.deferred = true
  unfinished : st.after.complete = false
  clear : st.after.status = st.before.status

instance (st : Step) : Decidable st.PutOff :=
  decidable_of_iff (st.result = .ok true ∧ st.after.deferred = true ∧ st.after.complete = false ∧
    st.after.status = st.before.status)
    ⟨fun ⟨answered, deferred, unfinished, clear⟩ => ⟨answered, deferred, unfinished, clear⟩,
      fun h => ⟨h.answered, h.deferred, h.unfinished, h.clear⟩⟩

/-- The same object is called again, for the same reason and for the item in the same place. -/
structure Again (st st' : Step) : Prop where
  callback : st'.callback = st.callback
  object : st'.object = st.object
  index : st'.before.index = st.before.index

variable {Obj : Type} {st : Step} {s t u : State Obj}

/-- Between two states the call of a step was made again. -/
def Recalled (st : Step) (s t : State Obj) : Prop :=
  ∃ steps, t.journal = s.journal ++ steps ∧ ∃ st' ∈ steps, st.Again st'

theorem Recalled.later (h : st.Recalled s t) (hlater : t.journal <+: u.journal) : st.Recalled s u := by
  obtain ⟨steps, hsteps, st', hst', hagain⟩ := h
  obtain ⟨more, hmore⟩ := hlater
  refine ⟨steps ++ more, ?_, st', List.mem_append_left _ hst', hagain⟩
  rw [← hmore, hsteps, List.append_assoc]

theorem Recalled.earlier (h : st.Recalled t u) (hearlier : s.journal <+: t.journal) : st.Recalled s u := by
  obtain ⟨steps, hsteps, st', hst', hagain⟩ := h
  obtain ⟨more, hmore⟩ := hearlier
  refine ⟨more ++ steps, ?_, st', List.mem_append_right _ hst', hagain⟩
  rw [hsteps, ← hmore, List.append_assoc]

end Step

/-! ### What look-ups come to -/

/-- Where a request is served that is alone under way, and what its look-ups depend on. -/
structure Solo where
  policy : Policy
  registry : Nat
  who : Requester
  entries : List Entry
  /-- The first variable that an object has in a region. It counts in searches alone. -/
  finds : ObjectId → Region → Option Oid

/-- To search an object changes nothing about what it finds. -/
def KeepsFinds (Obj : Type) [ManagedObject Obj] : Prop :=
  ∀ (x : Obj) (who : Requester) (item : Item) (region : Region),
    ManagedObject.find? (ManagedObject.next who item x).object region = ManagedObject.find? x region

namespace Solo

variable (S : Solo)

def query (x : Item) (writes : Bool) : Query := S.policy.query S.who x.region writes

/-- Whether an object can serve a query. -/
def accepts (q : Query) (object : ObjectId) : Bool :=
  if q.isSearch then
    match S.finds object q.region with
    | some first => q.allows first
    | none => false
  else q.allows q.region.lower

/-- The entry that a look-up for an item comes to. -/
def entry? (x : Item) (writes : Bool) : Option Entry :=
  (({ entries := S.entries } : Registry).candidates (S.query x writes)).find? fun e =>
    S.accepts (S.query x writes) e.object

/-- The object that a look-up for an item comes to. -/
def found (x : Item) (writes : Bool) : Option ObjectId := (S.entry? x writes).map Entry.object

/-- The object that a callback for an item is meant for. -/
def goal (x : Item) : Callback → Option ObjectId
  | .get | .next => S.found x false
  | .prepare => S.found x true
  | .commit | .undo => x.target.or (S.found x true)
  | .cleanup => x.target

/-- What the item addresses is not looked for by what objects find, unless the request searches. -/
def Suits (x : Item) : Prop := x.region.lowerIncluded = true ∨ S.who.kind.isSearch = true

variable {Obj : Type} [ManagedObject Obj]

/-- The state is one where the request is alone under way. -/
structure Holds (s : State Obj) : Prop where
  entries : (s.registry S.registry).entries = S.entries
  owned : (s.registry S.registry).locks.OwnedBy S.who.transaction
  finds : S.who.kind.isSearch = true → ∀ object region, ManagedObject.find? (s.objects object) region =
    S.finds object region

/-- A step was put off, and is to be made again with the item as it is now. -/
structure Owes (callback : Callback) (st : Step) (x : Item) : Prop where
  made : st.callback = callback
  unfinished : x.complete = false
  index : x.index = st.before.index
  goal : ∃ object, st.object = some object ∧ S.goal x callback = some object
  prepared : callback = .undo → x.prepared = true

section State
variable {S} {s t : State Obj} {x y : Item} {callback : Callback} {st : Step}

theorem Holds.of_bare (h : S.Holds s) (hbare : t.bare = s.bare)
    (howned : (t.registry S.registry).locks.OwnedBy S.who.transaction) : S.Holds t :=
  ⟨(State.entries_eq_of_bare hbare _).trans h.entries, howned, State.objects_eq_of_bare hbare ▸ h.finds⟩

theorem Holds.accepts_eq (h : S.Holds s) (hx : S.Suits x) (writes : Bool) (object : ObjectId) :
    (S.query x writes).accepts (s.objects object) = S.accepts (S.query x writes) object := by
  unfold Query.accepts accepts
  split
  · next hsearch =>
    have hsearches : S.who.kind.isSearch = true := hx.resolve_left fun hlower => by
      have hsame : (S.query x writes).region = x.region := rfl
      simp [Query.isSearch, hsame, hlower] at hsearch
    cases hfinds : S.finds object (S.query x writes).region <;> simp only [h.finds hsearches, hfinds]
  · rfl

/-- A look-up does not have to wait. -/
theorem Holds.free (h : S.Holds s) (q : Query) (terms : Option LockTerms)
    (hterms : ∀ t, terms = some t → t.owner = S.who.transaction) :
    (Lookup.mk S.registry q terms).Free s := by
  intro t ht
  exact hterms t (Lookup.locking?_eq_some.mp ht).1 ▸ h.owned

theorem Holds.of_plain (h : S.Holds s) {q : Query} {terms : Option LockTerms}
    (hterms : ∀ t, terms = some t → t.owner = S.who.transaction) {entries : List Entry} {f : Finding}
    (hplain : (Lookup.mk S.registry q terms).Plain entries s f t) : S.Holds t := by
  refine h.of_bare hplain.bare ?_
  cases hterms' : terms with
  | none =>
    have hlocking : (Lookup.mk S.registry q terms).locking? s = none := by simp [Lookup.locking?, hterms']
    rw [(hplain.unlocked hlocking).1]
    exact h.owned
  | some t' =>
    obtain rfl := hterms'
    have howner := hterms t' rfl
    have howned := hplain.ownedBy rfl (howner.symm ▸ h.owned)
    exact howner ▸ howned

/-- A look-up for an item comes to one entry, whatever the state. -/
theorem Holds.look (h : S.Holds s) (hx : S.Suits x) (writes : Bool) (terms : Option LockTerms)
    (hterms : ∀ t, terms = some t → t.owner = S.who.transaction) (patience : Nat) :
    (Lookup.run ⟨S.registry, S.query x writes, terms⟩ patience).Gives s fun f t =>
      S.Holds t ∧ t.bare = s.bare ∧ f.entry = S.entry? x writes ∧ f.lock ≠ .timedOut := by
  refine (Lookup.run_free patience (h.free _ terms hterms)).mono (fun _ => id) fun f t hplain => ?_
  refine ⟨h.of_plain hterms hplain, hplain.bare, ?_, hplain.lock⟩
  have hcandidates : (s.registry S.registry).candidates (S.query x writes) =
      ({ entries := S.entries } : Registry).candidates (S.query x writes) := by
    simp only [Registry.candidates, Registry.entriesFrom, h.entries]
  rw [hplain.entry, hcandidates, entry?]
  simp only [h.accepts_eq hx]

theorem Holds.lookUp (h : S.Holds s) (hx : S.Suits x) (writes : Bool) :
    (S.policy.lookUp S.registry S.who (S.query x writes)).Gives s fun f t =>
      S.Holds t ∧ t.bare = s.bare ∧ f.entry = S.entry? x writes ∧ f.lock ≠ .timedOut := by
  refine h.look hx writes (some (S.policy.terms S.who)) ?_ _
  rintro _ ⟨⟩
  rfl

theorem Holds.release (h : S.Holds s) (f : Finding) (object : ObjectId) :
    (f.release S.registry S.who object : Doing Obj Unit).Gives s fun _ t => S.Holds t ∧ t.bare = s.bare :=
  (Finding.release_ensures f S.registry S.who object s).mono (fun _ => id)
    fun _ _ ht => ⟨h.of_bare ht.1 (ht.2 h.owned), ht.1⟩

/-- An object that is called for a request may change, but not what it finds in a search. -/
theorem Holds.call (hkeeps : S.who.kind.isSearch = true → KeepsFinds Obj) (h : S.Holds s)
    (callback : Callback) (hcallback : S.who.kind.isSearch = true → callback = .next) (object : ObjectId) (x : Item) :
    S.Holds (s.call callback S.who object x).2 := by
  refine ⟨h.entries, h.owned, fun hsearch id region => ?_⟩
  obtain rfl := hcallback hsearch
  show ManagedObject.find? (if id = object then _ else s.objects id) region = _
  split
  · next hid =>
    subst hid
    exact (hkeeps hsearch _ _ _ _).trans (h.finds hsearch id region)
  · exact h.finds hsearch id region

/-- The step that a call is entered with. -/
def called (s : State Obj) (callback : Callback) (who : Requester) (object : ObjectId) (x : Item) : Step :=
  ⟨who, callback, some object, x, (s.call callback who object x).1.1, (s.call callback who object x).1.2⟩

theorem journal_call (s : State Obj) (callback : Callback) (who : Requester) (object : ObjectId) (x : Item) :
    (s.call callback who object x).2.journal = s.journal ++ [called s callback who object x] := rfl

theorem index_call (s : State Obj) (callback : Callback) (who : Requester) (object : ObjectId) (x : Item) :
    (s.call callback who object x).1.1.index = x.index := x.editAll_index _

theorem region_call (s : State Obj) (callback : Callback) (who : Requester) (object : ObjectId) (x : Item) :
    (s.call callback who object x).1.1.region = x.region := x.editAll_region _

theorem target_call (s : State Obj) (callback : Callback) (who : Requester) (object : ObjectId) (x : Item) :
    (s.call callback who object x).1.1.target = x.target := x.editAll_target _

theorem prepared_call (s : State Obj) (callback : Callback) (who : Requester) (object : ObjectId) (x : Item) :
    (s.call callback who object x).1.1.prepared = x.prepared := x.editAll_prepared _

omit [ManagedObject Obj] in
theorem Suits.of_eq (h : S.Suits x) (hregion : y.region = x.region) : S.Suits y :=
  h.imp_left fun hlower => hregion ▸ hlower

omit [ManagedObject Obj] in
theorem found_congr (hregion : y.region = x.region) (writes : Bool) : S.found y writes = S.found x writes := by
  simp only [found, entry?, query, hregion]

omit [ManagedObject Obj] in
/-- What a callback is meant for depends on what the item addresses and on its target. -/
theorem goal_congr (hregion : y.region = x.region) (htarget : y.target = x.target) (callback : Callback) :
    S.goal y callback = S.goal x callback := by
  cases callback <;> simp only [goal, found_congr hregion, htarget]

omit [ManagedObject Obj] in
/-- An item that is taken up again owes what it owed before. -/
theorem Owes.retry (h : S.Owes callback st x) : S.Owes callback st { x with deferred := false } :=
  ⟨h.made, h.unfinished, h.index, goal_congr rfl rfl callback ▸ h.goal, h.prepared⟩

end State
end Solo
end Responder
