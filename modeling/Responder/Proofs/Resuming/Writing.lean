import Responder.Proofs.Resuming.Reading
import Responder.Proofs.Set.Passes

/-! Requests that write, alone under way. Once an object has put off a call, no turn of the pass goes on from there
    (`Solo.Stuck.stays`); and in the next pass nothing can come before the item that owes the call (`Solo.set_leaves`).
    What an object does when it is cleaned up is another matter, as nothing waits for that. -/

namespace Responder

/-- The phase in which an object is called. -/
def Callback.phase : Callback → Phase
  | .get | .next => .process
  | .prepare => .prepare
  | .commit => .commit
  | .undo => .undo
  | .cleanup => .cleanup

namespace Solo

variable {Obj : Type} [ManagedObject Obj]

/-- Where a request that writes is served alone: nobody else does anything. -/
def scene (S : Solo) : Set.Scene Obj := ⟨S.policy, S.registry, S.who, fun _ _ => False⟩

/-- The request stands at the item for which an object has put off a call. -/
structure Stuck (S : Solo) (st : Step) (r : Request) : Prop where
  place : ∃ done x rest, r.items = done ++ x :: rest ∧ (∀ y ∈ done, y.complete = true) ∧
    S.Owes st.callback st x ∧ x.deferred = true
  phase : r.phase = st.callback.phase
  writes : st.callback = .prepare ∨ st.callback = .commit ∨ st.callback = .undo
  clear : r.phase = .prepare ∨ r.phase = .commit → r.hasError = false

variable {S : Solo} {s t u : State Obj} {x y : Item} {st : Step} {phase : Phase} {later : Option Error}

/-! ### One item -/

/-- What comes of an open item that is served in a phase. -/
structure Tended (S : Solo) (phase : Phase) (x : Item) (s : State Obj) (y : Item) (later : Option Error)
    (t : State Obj) : Prop where
  holds : S.Holds t
  region : y.region = x.region
  fault : later.isSome = true → S.policy.forwardFaults = true
  steps : ∃ steps, t.journal = s.journal ++ steps ∧ ∀ st ∈ steps, st.PutOff → st.callback ≠ .cleanup →
    S.Owes st.callback st y ∧ y.deferred = true ∧ phase = st.callback.phase ∧ y.status = x.status ∧
      (st.callback = .prepare ∨ st.callback = .commit ∨ st.callback = .undo)

theorem aim_gives (hs : S.Holds s) (hx : S.Suits x) : (S.scene.aim x : Doing Obj _).Gives s fun object t =>
    S.Holds t ∧ t.bare = s.bare ∧ object = x.target.or (S.found x true) := by
  cases htarget : x.target with
  | some target =>
    simp only [Set.Scene.aim, Set.target?, htarget, Activity.ensures_pure]
    exact ⟨hs, trivial, rfl⟩
  | none =>
    simp only [Set.Scene.aim, Set.target?, htarget, Activity.ensures_bind]
    refine (hs.look hx true none (by simp) _).mono (fun _ => id) ?_
    rintro f t ⟨ht, hbare, hfound, -⟩
    exact ⟨ht, hbare, congrArg _ hfound⟩

theorem aim_found (hs : S.Holds s) (hx : S.Suits x) {object : Option ObjectId}
    (h : (S.scene.aim x).Yields S.scene.rely s object t) :
    S.Holds t ∧ t.bare = s.bare ∧ object = x.target.or (S.found x true) :=
  (Activity.ensures_iff.mp (aim_gives hs hx)).2 object t h

theorem look_found (hs : S.Holds s) (hx : S.Suits x) {f : Finding}
    (h : (S.scene.look x).Yields S.scene.rely s f t) :
    S.Holds t ∧ t.bare = s.bare ∧ f.entry = S.entry? x true ∧ f.lock ≠ .timedOut :=
  (Activity.ensures_iff.mp (hs.lookUp hx true)).2 f t h

theorem not_pauses_look (hs : S.Holds s) : ¬(S.scene.look x).Pauses S.scene.rely s t := by
  have hfree := hs.free (S.query x true) (some (S.policy.terms S.who)) (by rintro _ ⟨⟩; rfl)
  have hlook := (Lookup.run_free S.policy.patience hfree : Activity.Gives _ _ _)
  exact (Activity.ensures_iff.mp hlook).1 t

/-- No object was called, and none waits to be called again. -/
theorem Tended.of_journal (ht : S.Holds t) (hregion : y.region = x.region)
    (hsteps : ∃ steps, t.journal = s.journal ++ steps ∧ ∀ st ∈ steps, ¬st.PutOff) :
    S.Tended phase x s y none t := by
  obtain ⟨steps, hjournal, hnone⟩ := hsteps
  exact ⟨ht, hregion, by simp, steps, hjournal, fun st hst hoff => absurd hoff (hnone st hst)⟩

/-- An item that was refused got an error instead of a call. -/
theorem tended_refuse (ht : S.Holds t) (hbare : t.bare = s.bare) (callback : Callback) (status : Status) :
    S.Tended phase x s (t.refuse callback S.who x status).1 none (t.refuse callback S.who x status).2 := by
  refine .of_journal ⟨ht.entries, ht.owned, ht.finds⟩ (x.setError_region status)
    ⟨[⟨S.who, callback, none, x, x.setError status, .ok false⟩], ?_, fun st hst hoff => ?_⟩
  · show t.journal ++ _ = _
    rw [State.journal_eq_of_bare hbare]
  · obtain rfl := List.mem_singleton.mp hst
    cases hoff.answered

/-- An object was called, and its item is closed unless the object has put the call off. -/
theorem tended_call (hkind : S.who.kind.isSearch = false) (ht : S.Holds t) (hbare : t.bare = s.bare)
    (callback : Callback) (target : Option ObjectId)
    (hwrites : callback = .prepare ∨ callback = .commit ∨ callback = .undo) {object : ObjectId}
    (hgoal : S.goal { x with target } callback = some object)
    (hprepared : callback = .undo → x.prepared = true) {status : Status} {close : Item → Item}
    (hclose : ∀ z : Item, (close z).region = z.region) :
    S.Tended callback.phase x s
      (Set.settle S.policy status close (t.call callback S.who object { x with target }).1).1
      (Set.settle S.policy status close (t.call callback S.who object { x with target }).1).2
      (t.call callback S.who object { x with target }).2 := by
  have hsearch : S.who.kind.isSearch = true → False := fun h => Bool.false_ne_true (hkind.symm.trans h)
  have hregion := region_call t callback S.who object { x with target }
  refine ⟨ht.call (fun h => (hsearch h).elim) _ (fun h => (hsearch h).elim) _ _, ?_, ?_,
    [called t callback S.who object { x with target }], ?_, ?_⟩
  · refine Eq.trans ?_ hregion
    unfold Set.settle
    split
    · dsimp only
      split
      · rfl
      · exact hclose _
    · simp [Policy.report]
  · unfold Set.settle
    split
    · simp
    · exact Policy.forwards_of_report status
  · rw [journal_call, State.journal_eq_of_bare hbare]
  · intro st hst hoff _
    obtain rfl := List.mem_singleton.mp hst
    have hanswered : (t.call callback S.who object { x with target }).1.2 = .ok true := hoff.answered
    have hdeferred : (t.call callback S.who object { x with target }).1.1.deferred = true := hoff.deferred
    have hput : (Set.settle S.policy status close (t.call callback S.who object { x with target }).1).1 =
        (t.call callback S.who object { x with target }).1.1 := by
      simp only [Set.settle, hanswered, hdeferred, if_true]
    rw [hput]
    refine ⟨⟨rfl, hoff.unfinished, index_call t callback S.who object _, ⟨object, rfl, ?_⟩, fun h => ?_⟩, hdeferred,
      rfl, hoff.clear, hwrites⟩
    · exact (goal_congr hregion (target_call t callback S.who object _) callback).trans hgoal
    · exact (prepared_call t callback S.who object _).trans (hprepared h)

/-- Serving an open item, whatever the phase. -/
theorem tended_of_served (hkind : S.who.kind.isSearch = false) (hs : S.Holds s) (hx : S.Suits x)
    {out : Item × Option Error} (h : Set.Served S.scene phase x s out t) : S.Tended phase x s out.1 out.2 t := by
  cases h with
  | late h hf hlock => exact absurd hlock (look_found hs hx h).2.2.2
  | refused h hf hlock => exact tended_refuse (look_found hs hx h).1 (look_found hs hx h).2.1 _ _
  | @prepared _ _ _ f e h hf =>
    obtain ⟨ht, hbare, hfound, -⟩ := look_found hs hx h
    refine tended_call hkind ht hbare .prepare _ (Or.inl rfl) ?_ (by simp) fun z => ?_
    · show S.found x true = _
      rw [found, ← hfound, hf, Option.map_some]
    · unfold Set.ready
      split <;> rfl
  | stranded h => exact tended_refuse (aim_found hs hx h).1 (aim_found hs hx h).2.1 _ _
  | committed h =>
    obtain ⟨ht, hbare, hobject⟩ := aim_found hs hx h
    exact tended_call hkind ht hbare .commit x.target (Or.inr (Or.inl rfl)) hobject.symm
      (by simp) fun _ => rfl
  | unprepared h => exact .of_journal hs rfl ⟨[], by simp, by simp⟩
  | kept hp h => exact tended_refuse (aim_found hs hx h).1 (aim_found hs hx h).2.1 _ _
  | undone hp h =>
    obtain ⟨ht, hbare, hobject⟩ := aim_found hs hx h
    exact tended_call hkind ht hbare .undo x.target (Or.inr (Or.inr rfl)) hobject.symm
      (fun _ => hp) fun _ => rfl
  | untouched h => exact .of_journal hs rfl ⟨[], by simp, by simp⟩
  | @cleaned _ _ object h =>
    have hu : S.Holds (s.unlock S.registry S.who.transaction object).2 :=
      hs.of_bare (s.bare_unlock _ _ _) (State.ownedBy_unlock hs.owned)
    have hsearch : S.who.kind.isSearch = true → False := fun h => Bool.false_ne_true (hkind.symm.trans h)
    refine ⟨hu.call (fun h => (hsearch h).elim) _ (fun h => (hsearch h).elim) _ _, ?_, ?_,
      [called (s.unlock S.registry S.who.transaction object).2 .cleanup S.who object { x with target := none }], ?_, ?_⟩
    · exact region_call (s.unlock S.registry S.who.transaction object).2 .cleanup S.who object { x with target := none }
    · unfold Set.overlook
      split
      · simp
      · exact Policy.forwards_of_report .noError
    · exact (journal_call _ _ _ _ _).trans (congrArg (· ++ _) (State.journal_eq_of_bare (s.bare_unlock _ _ _)))
    · intro st hst hoff hcleanup
      obtain rfl := List.mem_singleton.mp hst
      exact absurd rfl hcleanup

omit [ManagedObject Obj] in
theorem eq_of_first_open {xs ys xs' ys' : List Item} (h : xs ++ x :: ys = xs' ++ y :: ys')
    (hxs : ∀ z ∈ xs, z.complete = true) (hxs' : ∀ z ∈ xs', z.complete = true) (hx : x.complete = false)
    (hy : y.complete = false) : x = y := by
  have hfind {xs ys : List Item} {x : Item} (hxs : ∀ z ∈ xs, z.complete = true) (hx : x.complete = false) :
      (xs ++ x :: ys).find? (fun z => !z.complete) = some x := by
    have hnone : xs.find? (fun z => !z.complete) = none := by simpa using hxs
    simp [List.find?_append, hnone, hx]
  exact Option.some.inj ((hfind hxs hx).symm.trans (h ▸ hfind hxs' hy))

/-- To serve an item that owes a call is to make that call. -/
theorem recalled_of_served (hs : S.Holds s) (hx : S.Suits x) {out : Item × Option Error}
    (h : Set.Served S.scene phase x s out t) (howes : S.Owes st.callback st x) (hphase : phase = st.callback.phase)
    (hwrites : st.callback = .prepare ∨ st.callback = .commit ∨ st.callback = .undo) : st.Recalled s t := by
  obtain ⟨object, hobject, hgoal⟩ := howes.goal
  -- The phase tells which callback it is.
  have hphases (callback : Callback) (hc : callback.phase = st.callback.phase)
      (hcallback : callback = .prepare ∨ callback = .commit ∨ callback = .undo) : st.callback = callback := by
    rcases hwrites with h | h | h <;> rcases hcallback with rfl | rfl | rfl <;>
      simp_all [Callback.phase]
  have hcalled {callback : Callback} (hc : st.callback = callback) {t : State Obj} (hbare : t.bare = s.bare)
      (target : Option ObjectId) {object' : ObjectId} (hobject' : some object' = some object) :
      st.Recalled s (t.call callback S.who object' { x with target }).2 := by
    refine ⟨[called t callback S.who object' { x with target }], ?_, _, List.mem_singleton_self _, ?_⟩
    · rw [journal_call, State.journal_eq_of_bare hbare]
    · exact ⟨hc.symm, hobject'.trans hobject.symm, howes.index⟩
  cases h with
  | late h hf hlock => exact absurd hlock (look_found hs hx h).2.2.2
  | refused h hf hlock =>
    have hc := hphases .prepare hphase (Or.inl rfl)
    rw [hc] at hgoal
    have hfound : S.found x true = none := by rw [found, ← (look_found hs hx h).2.2.1, hf, Option.map_none]
    cases hfound.symm.trans hgoal
  | @prepared _ _ _ f e h hf =>
    have hc := hphases .prepare hphase (Or.inl rfl)
    rw [hc] at hgoal
    refine hcalled hc (look_found hs hx h).2.1 _ ?_
    have hfound := (look_found hs hx h).2.2.1
    exact (congrArg (Option.map Entry.object) (hf.symm.trans hfound)).trans hgoal
  | stranded h =>
    have hc := hphases .commit hphase (Or.inr (Or.inl rfl))
    rw [hc] at hgoal
    cases (aim_found hs hx h).2.2.trans hgoal
  | committed h =>
    have hc := hphases .commit hphase (Or.inr (Or.inl rfl))
    rw [hc] at hgoal
    exact hcalled hc (aim_found hs hx h).2.1 x.target ((aim_found hs hx h).2.2.trans hgoal)
  | unprepared hp =>
    have hc := hphases .undo hphase (Or.inr (Or.inr rfl))
    cases hp.symm.trans (howes.prepared hc)
  | kept hp h =>
    have hc := hphases .undo hphase (Or.inr (Or.inr rfl))
    rw [hc] at hgoal
    cases (aim_found hs hx h).2.2.trans hgoal
  | undone hp h =>
    have hc := hphases .undo hphase (Or.inr (Or.inr rfl))
    rw [hc] at hgoal
    exact hcalled hc (aim_found hs hx h).2.1 x.target ((aim_found hs hx h).2.2.trans hgoal)
  | untouched | cleaned => rcases hwrites with h | h | h <;> simp [h, Callback.phase] at hphase

/-! ### Turns -/

section Turns
variable {m m' : Set.Moment Obj}

/-- A moment of a pass that is alone. -/
structure Amid (S : Solo) (m : Set.Moment Obj) : Prop where
  holds : S.Holds m.state
  writes : Set.Writes (S.scene : Set.Scene Obj) m.request
  suits : ∀ x ∈ m.request.items, S.Suits x
  fault : m.error.isSome = true → S.policy.forwardFaults = true

/-- What happens from one moment on up to another one. Where an object has put off a call, the request stands there. -/
structure Since (S : Solo) (m m' : Set.Moment Obj) : Prop where
  amid : S.Amid m'
  steps : ∃ steps, m'.state.journal = m.state.journal ++ steps ∧
    ∀ st ∈ steps, st.PutOff → st.callback ≠ .cleanup → S.Stuck st m'.request

/-- A request that stands at an item goes no further in its pass. -/
theorem Stuck.stays (h : S.Stuck st m.request) (hm : S.Amid m) (hturn : Set.Turn S.scene m m') : False := by
  obtain ⟨done, x, rest, hitems, -, howes, hdeferred⟩ := h.place
  have hx : x ∈ m.request.items := hitems ▸ List.mem_append_right _ List.mem_cons_self
  have hphase : m.request.phase ≠ .start := by
    rw [h.phase]
    rcases h.writes with hc | hc | hc <;> simp [hc, Callback.phase]
  cases hturn with
  | serve hpass => exact Bool.false_ne_true ((hpass.rested x hx).symm.trans hdeferred)
  | wait _ hwait => exact not_pauses_look hm.holds hwait
  | giveUp hgives => exact Bool.false_ne_true ((h.clear hgives.1).symm.trans hgives.2)
  | advance hclosed hr =>
    cases howes.unfinished.symm.trans (hm.writes.all_complete hclosed hphase x hx)
  | retry _ hrely => exact hrely

theorem Amid.since (h : S.Amid m) : S.Since m m := ⟨h, [], by simp, by simp⟩

/-- What all items have alike is what they had. -/
theorem Amid.map {r' : Request} (h : S.Amid m) (hwrites : Set.Writes (S.scene : Set.Scene Obj) r') {f : Item → Item}
    (hitems : r'.items = m.request.items.map f) (hf : ∀ x, (f x).region = x.region) :
    S.Since m ⟨r', m.error, m.state⟩ := by
  refine ⟨⟨h.holds, hwrites, fun x hx => ?_, h.fault⟩, [], by simp, by simp⟩
  obtain ⟨y, hy, rfl⟩ := List.mem_map.mp (hitems ▸ hx)
  exact (h.suits y hy).of_eq (hf y)

/-- One turn. -/
theorem Amid.turn (hkind : S.who.kind.isSearch = false) (h : S.Amid m) (hturn : Set.Turn S.scene m m') :
    S.Since m m' := by
  have hwrites := hturn.writes h.writes
  cases hturn with
  | @serve r error later s t done rest x y hpass hopen hclear hserved =>
    have hx : x ∈ r.items := hpass.items ▸ List.mem_append_right _ List.mem_cons_self
    have htended := tended_of_served hkind h.holds (h.suits x hx) hserved
    have hsuits : ∀ z ∈ done ++ y :: rest, S.Suits z :=
      forall_replace (hpass.items ▸ h.suits) ((h.suits x hx).of_eq htended.region)
    refine ⟨⟨htended.holds, hwrites, hsuits, fun herror => ?_⟩, ?_⟩
    · cases error with
      | none => exact htended.fault herror
      | some error => exact h.fault rfl
    · obtain ⟨steps, hsteps, howes⟩ := htended.steps
      refine ⟨steps, hsteps, fun st hst hoff hcleanup => ?_⟩
      obtain ⟨howes, hdeferred, hphase, hstatus, hcalls⟩ := howes st hst hoff hcleanup
      refine ⟨⟨done, y, rest, rfl, hpass.behind, howes, hdeferred⟩, hphase, hcalls, fun hearly => ?_⟩
      have hr := hclear hearly
      have hclean : y.hasError = x.hasError := congrArg Status.isError hstatus
      rw [hasError_replace hpass.items hr y, hclean]
      exact hasError_of_mem hr hx
  | wait _ hwait => exact (not_pauses_look h.holds hwait).elim
  | giveUp hgives =>
    refine h.map hwrites (f := fun x => if x.complete then x else x.finish) rfl fun x => ?_
    split <;> rfl
  | advance hclosed hr =>
    obtain ⟨phase, -, rfl⟩ := Set.advance?_eq hr
    exact h.map hwrites (f := Item.restart) rfl fun _ => rfl
  | retry _ hrely => exact hrely.elim

/-- Any number of turns. What has been put off stays so, as the request stands still from there on. -/
theorem Amid.turns (hkind : S.who.kind.isSearch = false) (h : S.Amid m) (hturns : Set.Turns S.scene m m') :
    S.Since m m' := by
  induction hturns with
  | refl => exact h.since
  | @tail a b _ hturn ih =>
    obtain ⟨hamid, steps, hsteps, hstuck⟩ := ih
    obtain ⟨hamid', more, hmore, hstuck'⟩ := hamid.turn hkind hturn
    refine ⟨hamid', steps ++ more, by rw [hmore, hsteps, List.append_assoc], fun st hst hoff hcleanup => ?_⟩
    rcases List.mem_append.mp hst with hst | hst
    · exact ((hstuck st hst hoff hcleanup).stays hamid hturn).elim
    · exact hstuck' st hst hoff hcleanup

end Turns

/-! ### Requests -/

section Requests
variable {r : Request} (hkind : S.who.kind = .set) (hs : S.Holds s) (hr : S.Ready r)
include hkind hs hr

omit hs [ManagedObject Obj] in
theorem Ready.writes : Set.Writes (S.scene : Set.Scene Obj) r :=
  ⟨hr.requester, hr.kind.trans hkind, hr.status, hr.phase hkind⟩

omit hkind in
theorem Ready.amid (hwrites : Set.Writes (S.scene : Set.Scene Obj) r) : S.Amid (⟨r, none, s⟩ : Set.Moment Obj) :=
  ⟨hs, hwrites, hr.suits, by simp⟩

/-- One pass over a request that writes does not wait, and turns lead to its end. -/
theorem run_driven : (Set.run S.policy S.registry r).Gives s fun out t =>
    Set.Driven S.scene ⟨r, none, s⟩ out t ∧ S.Since ⟨r, none, s⟩ ⟨out.1, out.2, t⟩ := by
  have hsearch : S.who.kind.isSearch = false := by rw [hkind]; rfl
  have hwrites : Set.Writes (S.scene : Set.Scene Obj) r := hr.writes hkind
  have hamid := hr.amid hs hwrites
  refine (Set.run_ensures hwrites fun _ => hr.rested).mono ?_ fun out t ht => ⟨ht, hamid.turns hsearch ht.turns⟩
  rintro t ⟨r', error, u, x, hturns, -, hwait⟩
  exact not_pauses_look (hamid.turns hsearch hturns).amid.holds hwait

/-- A request that stands at an item and is taken up again goes on with the call that is owed. -/
theorem Stuck.recalls {r' : Request} (h : S.Stuck st r') (hretry : r = r'.retry) {m : Set.Moment Obj}
    (hturn : Set.Turn S.scene ⟨r, none, s⟩ m) : st.Recalled s m.state := by
  obtain ⟨done, x, rest, hitems, hdone, howes, -⟩ := h.place
  have hwrites : Set.Writes (S.scene : Set.Scene Obj) r := hr.writes hkind
  have hphase : r.phase = st.callback.phase := hretry ▸ h.phase
  have hplace : r.items = done.map (fun i => { i with deferred := false }) ++
      { x with deferred := false } :: rest.map fun i => { i with deferred := false } := by
    rw [hretry, Request.retry, hitems, List.map_append, List.map_cons]
  have howes' := howes.retry
  have hx : { x with deferred := false } ∈ r.items := hplace ▸ List.mem_append_right _ List.mem_cons_self
  have hbehind : ∀ z ∈ done.map (fun i : Item => { i with deferred := false }), z.complete = true :=
    List.forall_mem_map.mpr hdone
  cases hturn with
  | @serve _ _ _ _ _ done' rest' y _ hpass hopen _ hserved =>
    obtain rfl := eq_of_first_open (hpass.items.symm.trans hplace) hpass.behind hbehind hopen howes'.unfinished
    exact recalled_of_served hs (hr.suits _ hx) hserved howes' hphase h.writes
  | wait _ hwait => exact (not_pauses_look hs hwait).elim
  | giveUp hgives =>
    have hclear := h.clear (by rw [h.phase, ← hphase]; exact hgives.1)
    rw [← hasError_retry, ← hretry] at hclear
    cases hclear.symm.trans hgives.2
  | advance hclosed _ =>
    have hstart : r.phase ≠ .start := by
      rw [hphase]
      rcases h.writes with hc | hc | hc <;> simp [hc, Callback.phase]
    cases howes'.unfinished.symm.trans (hwrites.all_complete hclosed hstart _ hx)
  | retry _ hrely => exact hrely.elim

theorem set_recalls {r' : Request} (h : S.Stuck st r') (hretry : r = r'.retry) :
    (Set.run S.policy S.registry r).Gives s fun _ t => st.Recalled s t := by
  have hsearch : S.who.kind.isSearch = false := by rw [hkind]; rfl
  have hwrites : Set.Writes (S.scene : Set.Scene Obj) r := hr.writes hkind
  refine (run_driven hkind hs hr).mono (fun _ => id) ?_
  rintro out t ⟨hdriven, -⟩
  rcases Relation.ReflTransGen.cases_head hdriven.turns with hsame | ⟨m, hturn, hturns⟩
  · -- The pass cannot end where it begins.
    obtain ⟨done, x, rest, hitems, -, howes, -⟩ := h.place
    have hx : { x with deferred := false } ∈ r.items :=
      hretry ▸ mem_retry (hitems ▸ List.mem_append_right _ List.mem_cons_self)
    obtain ⟨rfl, -⟩ := Set.Moment.mk.inj hsame
    rcases hdriven.closed with hcomplete | ⟨y, hy, hdeferred⟩
    · cases (isComplete_of_open hr.status hx howes.retry.unfinished).symm.trans hcomplete
    · cases (hr.rested y hy).symm.trans hdeferred
  · have hamid := ((hr.amid hs hwrites).turn hsearch hturn).amid
    obtain ⟨steps, hsteps, -⟩ := (hamid.turns hsearch hturns).steps
    exact (h.recalls hkind hs hr hretry hturn).later (hsteps ▸ List.prefix_append _ _)

theorem set_leaves : (Set.run S.policy S.registry r).Gives s (S.Leaves (Set.run S.policy S.registry) s) := by
  refine (run_driven hkind hs hr).mono (fun _ => id) ?_
  rintro ⟨r', error⟩ t ⟨-, hamid, steps, hsteps, hstuck⟩
  have hready : S.Ready r'.retry := by
    refine ⟨hamid.writes.who, hamid.writes.kind.trans hkind.symm, hamid.writes.status, fun x hx => ?_, fun x hx => ?_,
      fun _ => hamid.writes.phase, ?_⟩
    · obtain ⟨y, hy, rfl⟩ := List.mem_map.mp hx
      exact (hamid.suits y hy).of_eq rfl
    · obtain ⟨y, -, rfl⟩ := List.mem_map.mp hx
      rfl
    · have hnone : r'.retry.shape? = none := by
        have hset : r'.retry.pdu.kind = .set := hamid.writes.kind
        simp [Request.shape?, Request.shapeOf?, hset]
      simp [Repetition.start, hnone]
  refine ⟨hamid.holds, hready, hamid.fault, steps, hsteps, fun st hst hoff hcleanup _ => ?_⟩
  have hstands := hstuck st hst hoff hcleanup
  obtain ⟨done, x, rest, hitems, -, howes, -⟩ := hstands.place
  refine ⟨isComplete_of_open hamid.writes.status (hitems ▸ List.mem_append_right _ List.mem_cons_self) howes.unfinished,
    fun s' hs' => ?_⟩
  exact (set_recalls hkind hs' hready hstands rfl).mono (fun _ => id) fun _ _ hrecalled _ => hrecalled

end Requests
end Solo
end Responder
