import Responder.Proofs.Conduct
import Responder.Proofs.Resuming.Solo

/-! Requests that read, alone under way. An item that an object has put off is left open and owes the call, whatever
    else is served in the same pass (`Solo.serveOpen_serves`), and when the items are served again, that call is made
    before the pass can end but in an error (`Solo.serveOpen_recalls`). -/

namespace Responder

variable {Obj : Type} [ManagedObject Obj]

/-- Where the repetition starts is a matter of what was asked. -/
theorem Bulk.start_congr {r r' : Request} (hpdu : r'.pdu = r.pdu) : Repetition.start r' = Repetition.start r := by
  rw [Repetition.start, Repetition.start, Request.shape?, Request.shape?, hpdu]

/-- A fault is passed on only where faults are. -/
theorem Policy.forwards_of_report {p : Policy} {x : Item} (status : Status) {fault : Fault}
    (h : (p.report x status fault).2.isSome = true) : p.forwardFaults = true := by
  unfold report at h
  cases hforward : p.forwardFaults with
  | true => rfl
  | false => simp [hforward] at h

namespace Solo

/-- What comes of an item that is served. -/
structure Serves (S : Solo) (callback : Callback) (s : State Obj) (out : Item × Option Error) (t : State Obj) :
    Prop where
  holds : S.Holds t
  suits : S.Suits out.1
  fault : out.2.isSome = true → S.policy.forwardFaults = true
  steps : ∃ steps, t.journal = s.journal ++ steps ∧ ∀ st ∈ steps, st.PutOff → S.Owes callback st out.1

/-- What comes of a list of items, of which the open ones are served. -/
structure ServesAll (S : Solo) (callback : Callback) (xs : List Item) (s : State Obj) (out : List Item × Option Error)
    (t : State Obj) : Prop where
  holds : S.Holds t
  length : out.1.length = xs.length
  suits : ∀ x ∈ out.1, S.Suits x
  fault : out.2.isSome = true → S.policy.forwardFaults = true
  steps : ∃ steps, t.journal = s.journal ++ steps ∧
    ∀ st ∈ steps, st.PutOff → out.2 = none → ∃ x ∈ out.1, S.Owes callback st x

variable {S : Solo} {s t u : State Obj} {x y : Item} {st : Step} {callback : Callback} {out : Item × Option Error}

/-! ### One item -/

/-- Nothing was called, and the item addresses what it did. -/
theorem Serves.of_bare (ht : S.Holds t) (hbare : t.bare = s.bare) (hy : S.Suits y) :
    S.Serves callback s (y, none) t :=
  ⟨ht, hy, by simp, [], by simp [State.journal_eq_of_bare hbare], by simp⟩

/-- One object has been called, and the item is closed unless the object has put the call off. -/
theorem Serves.of_call (out : Item × Option Error) {object : ObjectId} (ht : t.bare = s.bare) (hu : S.Holds u)
    (hbare : u.bare = (t.call callback S.who object x).2.bare) (hgoal : S.goal x callback = some object)
    (hundo : callback ≠ .undo) (hx : S.Suits x) (hregion : out.1.region = x.region)
    (hfault : out.2.isSome = true → S.policy.forwardFaults = true)
    (hput : (called t callback S.who object x).PutOff → out.1 = (t.call callback S.who object x).1.1) :
    S.Serves callback s out u := by
  refine ⟨hu, hx.of_eq hregion, hfault, [called t callback S.who object x], ?_, fun st hst hoff => ?_⟩
  · rw [State.journal_eq_of_bare hbare, journal_call, State.journal_eq_of_bare ht]
  · obtain rfl := List.mem_singleton.mp hst
    rw [hput hoff]
    refine ⟨rfl, hoff.unfinished, index_call t callback S.who object x, ⟨object, rfl, ?_⟩, fun h => absurd h hundo⟩
    rw [goal_congr (region_call t callback S.who object x) (target_call t callback S.who object x), hgoal]

theorem Serves.cons {steps : List Step} (h : S.Serves callback t out u) (hjournal : t.journal = s.journal ++ steps)
    (hsteps : ∀ st ∈ steps, ¬st.PutOff) : S.Serves callback s out u := by
  obtain ⟨more, hmore, howes⟩ := h.steps
  refine ⟨h.holds, h.suits, h.fault, steps ++ more, by rw [hmore, hjournal, List.append_assoc], fun st hst hoff => ?_⟩
  rcases List.mem_append.mp hst with hst | hst
  · exact absurd hoff (hsteps st hst)
  · exact howes st hst hoff

theorem Serves.grows (h : S.Serves callback s out t) : s.journal <+: t.journal := by
  obtain ⟨steps, hsteps, -⟩ := h.steps
  exact hsteps ▸ List.prefix_append _ _

theorem ServesAll.grows {xs : List Item} {out : List Item × Option Error} (h : S.ServesAll callback xs s out t) :
    s.journal <+: t.journal := by
  obtain ⟨steps, hsteps, -⟩ := h.steps
  exact hsteps ▸ List.prefix_append _ _

/-- A list is served behind an item. -/
theorem ServesAll.cons {xs : List Item} {out : List Item × Option Error} {z : Item}
    (h : S.ServesAll callback xs t out u) (hx : S.Serves callback s (y, none) t) :
    S.ServesAll callback (z :: xs) s (y :: out.1, out.2) u := by
  obtain ⟨steps, hsteps, howes⟩ := hx.steps
  obtain ⟨more, hmore, howesall⟩ := h.steps
  refine ⟨h.holds, congrArg (· + 1) h.length, List.forall_mem_cons.mpr ⟨hx.suits, h.suits⟩, h.fault, steps ++ more,
    by rw [hmore, hsteps, List.append_assoc], fun st hst hoff hnone => ?_⟩
  rcases List.mem_append.mp hst with hst | hst
  · exact ⟨y, List.mem_cons_self, howes st hst hoff⟩
  · obtain ⟨x, hx, howes⟩ := howesall st hst hoff hnone
    exact ⟨x, List.mem_cons_of_mem _ hx, howes⟩

section Calls
variable (hversion : S.who.version ≠ .v1) (hs : S.Holds s) (hx : S.Suits x)
include hversion hs hx

theorem get_serves (hkind : S.who.kind.isSearch = false) :
    (Get.serve S.policy S.registry S.who x).Gives s (S.Serves .get s) := by
  simp only [Get.serve, Activity.ensures_bind]
  refine (hs.lookUp hx false).mono (fun _ => id) ?_
  rintro f t ⟨ht, hbare, hfound, hlock⟩
  cases hentry : f.entry with
  | none =>
    simp only [hlock, if_false]
    exact .of_bare ht hbare (hx.of_eq rfl)
  | some e =>
    simp only [Activity.ensures_bind, callObject, Activity.ensures_modifyGet]
    have hcalled := ht.call (fun hsearch => absurd hsearch (by simp [hkind])) .get
      (fun hsearch => absurd hsearch (by simp [hkind])) e.object x
    refine (hcalled.release f e.object).mono (fun _ => id) fun _ u hu => ?_
    have hgoal : S.goal x .get = some e.object := by rw [goal, found, ← hfound, hentry, Option.map_some]
    have hmade (out : Item × Option Error) := Serves.of_call out hbare hu.1 hu.2 hgoal (by simp) hx
    cases hresult : (t.call .get S.who e.object x).1.2 with
    | ok _ =>
      refine hmade _ ?_ (by simp) fun hoff => ?_
      · rw [← region_call t .get S.who e.object x]
        simp only [Get.conclude, hversion, false_and, if_false]
        split <;> rfl
      · have hdeferred : (t.call .get S.who e.object x).1.1.deferred = true := hoff.deferred
        simp only [Get.conclude, hversion, false_and, if_false, hdeferred, if_true]
    | error fault =>
      refine hmade _ ?_ (Policy.forwards_of_report .genErr) fun hoff => ?_
      · rw [← region_call t .get S.who e.object x]
        simp [Policy.report]
      · cases hresult.symm.trans hoff.answered

omit hx in
/-- An object that declines a search has not put it off, and leaves the item to be searched for behind it. -/
theorem next_serves (hkind : S.who.kind.isSearch = true) (hkeeps : KeepsFinds Obj) (laps : Nat) :
    (Next.serve S.policy S.registry S.who laps x).Gives s (S.Serves .next s) := by
  have hsuits (y : Item) : S.Suits y := Or.inr hkind
  induction laps generalizing x s with
  | zero => exact Serves.of_bare hs rfl (hsuits x)
  | succ laps ih =>
    simp only [Next.serve, Activity.ensures_bind]
    refine (hs.lookUp (hsuits x) false).mono (fun _ => id) ?_
    rintro f t ⟨ht, hbare, hfound, hlock⟩
    cases hentry : f.entry with
    | none =>
      simp only [hlock, if_false]
      exact .of_bare ht hbare (hsuits _)
    | some e =>
      simp only [Activity.ensures_bind, callObject, Activity.ensures_modifyGet]
      have hcalled := ht.call (fun _ => hkeeps) .next (fun _ => rfl) e.object x
      refine (hcalled.release f e.object).mono (fun _ => id) fun _ u hu => ?_
      have hgoal : S.goal x .next = some e.object := by rw [goal, found, ← hfound, hentry, Option.map_some]
      have hmade (out : Item × Option Error) (hregion : out.1.region = x.region) :=
        Serves.of_call out hbare hu.1 hu.2 hgoal (by simp) (hsuits x) hregion
      have hsame := region_call t .next S.who e.object x
      have hjournal : u.journal = s.journal ++ [called t .next S.who e.object x] := by
        rw [State.journal_eq_of_bare hu.2, journal_call, State.journal_eq_of_bare hbare]
      cases hresult : (t.call .next S.who e.object x).1.2 with
      | error fault =>
        refine hmade _ ?_ (Policy.forwards_of_report .genErr) fun hoff => ?_
        · rw [← hsame]
          simp [Policy.report]
        · cases hresult.symm.trans hoff.answered
      | ok answer =>
        cases answer with
        | true =>
          simp only [hversion, false_and, if_false]
          refine hmade _ ?_ (by simp) fun hoff => ?_
          · rw [← hsame]
            dsimp only
            split <;> rfl
          · have hdeferred : (t.call .next S.who e.object x).1.1.deferred = true := hoff.deferred
            simp only [hdeferred, if_true]
        | false =>
          have hdeclined : ∀ st ∈ [called t .next S.who e.object x], ¬st.PutOff := by
            intro st hst hoff
            obtain rfl := List.mem_singleton.mp hst
            cases hresult.symm.trans hoff.answered
          dsimp only
          split
          · exact (Serves.of_bare hu.1 rfl (hsuits _)).cons hjournal hdeclined
          · exact (ih hu.1).mono (fun _ => id) fun out v hv => hv.cons hjournal hdeclined

omit hx in
theorem search_serves (hkind : S.who.kind.isSearch = true) (hkeeps : KeepsFinds Obj) :
    (Next.search S.policy S.registry S.who x).Gives s (S.Serves .next s) := next_serves hversion hs hkind hkeeps _

end Calls

/-- To serve an item that owes a call is to make that call. -/
theorem get_recalls (hs : S.Holds s) (hx : S.Suits x) (hkind : S.who.kind.isSearch = false)
    (howes : S.Owes .get st x) :
    (Get.serve S.policy S.registry S.who x).Gives s fun _ t => st.Recalled s t := by
  obtain ⟨object, hobject, hgoal⟩ := howes.goal
  simp only [Get.serve, Activity.ensures_bind]
  refine (hs.lookUp hx false).mono (fun _ => id) ?_
  rintro f t ⟨ht, hbare, hfound, -⟩
  obtain ⟨e, hentry, rfl⟩ := Option.map_eq_some_iff.mp ((congrArg _ hfound).trans hgoal)
  simp only [hentry, Activity.ensures_bind, callObject, Activity.ensures_modifyGet]
  have hcalled := ht.call (fun hsearch => absurd hsearch (by simp [hkind])) .get
    (fun hsearch => absurd hsearch (by simp [hkind])) e.object x
  refine (hcalled.release f e.object).mono (fun _ => id) fun _ u hu => ?_
  have hagain : st.Recalled s u := by
    refine ⟨[called t .get S.who e.object x], ?_, _, List.mem_singleton_self _, ?_⟩
    · rw [State.journal_eq_of_bare hu.2, journal_call, State.journal_eq_of_bare hbare]
    · exact ⟨howes.made.symm, hobject.symm, howes.index⟩
  split <;> exact hagain

theorem next_recalls (hversion : S.who.version ≠ .v1) (hs : S.Holds s) (hkind : S.who.kind.isSearch = true)
    (hkeeps : KeepsFinds Obj) (howes : S.Owes .next st x) (laps : Nat) :
    (Next.serve S.policy S.registry S.who (laps + 1) x).Gives s fun _ t => st.Recalled s t := by
  obtain ⟨object, hobject, hgoal⟩ := howes.goal
  simp only [Next.serve, Activity.ensures_bind]
  refine (hs.lookUp (Or.inr hkind) false).mono (fun _ => id) ?_
  rintro f t ⟨ht, hbare, hfound, -⟩
  obtain ⟨e, hentry, rfl⟩ := Option.map_eq_some_iff.mp ((congrArg _ hfound).trans hgoal)
  simp only [hentry, Activity.ensures_bind, callObject, Activity.ensures_modifyGet]
  have hcalled := ht.call (fun _ => hkeeps) .next (fun _ => rfl) e.object x
  refine (hcalled.release f e.object).mono (fun _ => id) fun _ u hu => ?_
  have hagain : st.Recalled s u := by
    refine ⟨[called t .next S.who e.object x], ?_, _, List.mem_singleton_self _, ?_⟩
    · rw [State.journal_eq_of_bare hu.2, journal_call, State.journal_eq_of_bare hbare]
    · exact ⟨howes.made.symm, hobject.symm, howes.index⟩
  -- Whatever the object answers this time, the search may go on, and its journal with it.
  have hon (y : Item) : (Next.serve S.policy S.registry S.who laps y).Gives u fun _ v => st.Recalled s v :=
    (next_serves hversion hu.1 hkind hkeeps laps).mono (fun _ => id) fun out v hv => hagain.later hv.grows
  split
  · exact hagain
  · split
    · exact hon _
    · exact hagain
  · split
    · exact hagain
    · exact hon _

theorem search_recalls (hversion : S.who.version ≠ .v1) (hs : S.Holds s) (hkind : S.who.kind.isSearch = true)
    (hkeeps : KeepsFinds Obj) (howes : S.Owes .next st x) :
    (Next.search S.policy S.registry S.who x).Gives s fun _ t => st.Recalled s t :=
  next_recalls hversion hs hkind hkeeps howes _

/-! ### One item after the other -/

section Open
variable {serve : Item → Doing Obj (Item × Option Error)}
  (hserve : ∀ x s, S.Holds s → S.Suits x → x.complete = false → (serve x).Gives s (S.Serves callback s))
include hserve

theorem serveOpen_serves : ∀ (xs : List Item) (s : State Obj), S.Holds s → (∀ x ∈ xs, S.Suits x) →
    (serveOpen serve xs).Gives s (S.ServesAll callback xs s)
  | [], s, hs, _ => ⟨hs, rfl, by simp, by simp, [], by simp, by simp⟩
  | x :: xs, s, hs, hall => by
    obtain ⟨hx, hxs⟩ := List.forall_mem_cons.mp hall
    rw [serveOpen]
    split
    · rw [Activity.gives_bind]
      refine (serveOpen_serves xs s hs hxs).mono (fun _ => id) fun out t ht => ?_
      exact ht.cons ⟨hs, hx, by simp, [], by simp, by simp⟩
    · next hopen =>
      rw [Activity.gives_bind]
      refine (hserve x s hs hx (Bool.not_eq_true _ ▸ hopen)).mono (fun _ => id) ?_
      rintro ⟨y, _ | error⟩ t ht
      · rw [Activity.gives_bind]
        exact (serveOpen_serves xs t ht.holds hxs).mono (fun _ => id) fun out u hu => hu.cons ht
      · refine ⟨ht.holds, rfl, List.forall_mem_cons.mpr ⟨ht.suits, hxs⟩, ht.fault, ?_⟩
        obtain ⟨steps, hsteps, -⟩ := ht.steps
        exact ⟨steps, hsteps, by simp⟩

/-- An item whose call has to be made again is served, unless one before it ends in an error. -/
theorem serveOpen_recalls {y : Item} (hopen : y.complete = false)
    (hagain : ∀ s, S.Holds s → (serve y).Gives s fun _ t => st.Recalled s t) :
    ∀ (xs : List Item) (s : State Obj), y ∈ xs → S.Holds s → (∀ x ∈ xs, S.Suits x) →
      (serveOpen serve xs).Gives s fun out t => out.2 = none → st.Recalled s t
  | x :: xs, s, hy, hs, hall => by
    obtain ⟨hx, hxs⟩ := List.forall_mem_cons.mp hall
    have ih := serveOpen_recalls hopen hagain xs
    rw [serveOpen]
    rcases List.mem_cons.mp hy with rfl | hy
    · rw [if_neg (by simp [hopen]), Activity.gives_bind]
      refine ((hserve y s hs hx hopen).and (hagain s hs)).mono (fun _ => id) ?_
      rintro ⟨y', _ | error⟩ t ⟨ht, hrecalled⟩
      · rw [Activity.gives_bind]
        refine (serveOpen_serves hserve xs t ht.holds hxs).mono (fun _ => id) fun out u hu => ?_
        exact fun _ => hrecalled.later hu.grows
      · exact fun _ => hrecalled
    · split
      · rw [Activity.gives_bind]
        exact (ih s hy hs hxs).mono (fun _ => id) fun out t ht => ht
      · next hopen' =>
        rw [Activity.gives_bind]
        refine (hserve x s hs hx (Bool.not_eq_true _ ▸ hopen')).mono (fun _ => id) ?_
        rintro ⟨x', _ | error⟩ t ht
        · rw [Activity.gives_bind]
          exact (ih t hy ht.holds hxs).mono (fun _ => id) fun out u hu hnone => (hu hnone).earlier ht.grows
        · exact fun hnone => (Option.some_ne_none error hnone).elim

end Open

/-! ### Requests -/

/-- A request that is served on behalf of the one who is alone. -/
structure Ready (S : Solo) (r : Request) : Prop where
  requester : r.requester = S.who
  kind : r.pdu.kind = S.who.kind
  status : r.status.isError = false
  suits : ∀ x ∈ r.items, S.Suits x
  rested : ∀ x ∈ r.items, x.deferred = false
  phase : S.who.kind = .set → r.phase ≠ .process
  /-- What is asked for once is there. -/
  sized : Repetition.start r ≤ r.size

/-- What a pass over a request leaves. Wherever an object has put off a call in it, and no error ends the pass, the
request is incomplete, and the next pass makes the call again, but where that one ends in an error. -/
structure Leaves (S : Solo) (run : Request → Doing Obj (Request × Option Error)) (s : State Obj)
    (out : Request × Option Error) (t : State Obj) : Prop where
  holds : S.Holds t
  ready : S.Ready out.1.retry
  fault : out.2.isSome = true → S.policy.forwardFaults = true
  steps : ∃ steps, t.journal = s.journal ++ steps ∧
    ∀ st ∈ steps, st.PutOff → st.callback ≠ .cleanup → out.2 = none → out.1.isComplete = false ∧
      ∀ s', S.Holds s' → (run out.1.retry).Gives s' fun out' t' => out'.2 = none → st.Recalled s' t'

section Requests
variable {r : Request}

omit [ManagedObject Obj] in
theorem begin_of_phase (h : r.phase ≠ .start) : r.begin = r := if_neg h

omit [ManagedObject Obj] in
theorem phase_begin (r : Request) : r.begin.phase ≠ .start := by
  by_cases hphase : r.phase = .start
  · have htwo : r.begin.phase = if r.isTwoPhase then .prepare else .process := by
      simp [Request.begin, Request.advance?, Request.following?, hphase]
    rw [htwo]
    split <;> simp
  · rwa [begin_of_phase hphase]

omit [ManagedObject Obj] in
theorem mem_begin {r : Request} {x : Item} (hx : x ∈ r.begin.items) : ∃ y ∈ r.items, x = y ∨ x = y.restart := by
  unfold Request.begin at hx
  split at hx
  · cases hadvance : r.advance? with
    | none =>
      rw [hadvance] at hx
      exact ⟨x, hx, Or.inl rfl⟩
    | some r' =>
      rw [hadvance] at hx
      obtain ⟨phase, -, rfl⟩ := Option.map_eq_some_iff.mp hadvance
      obtain ⟨y, hy, rfl⟩ := List.mem_map.mp hx
      exact ⟨y, hy, Or.inr rfl⟩
  · exact ⟨x, hx, Or.inl rfl⟩

omit [ManagedObject Obj] in
theorem begin_kept (r : Request) : r.begin.requester = r.requester ∧ r.begin.pdu = r.pdu ∧
    r.begin.status = r.status := by
  unfold Request.begin
  split
  · cases hadvance : r.advance? with
    | none => exact ⟨rfl, rfl, rfl⟩
    | some r' =>
      obtain ⟨phase, -, rfl⟩ := Option.map_eq_some_iff.mp hadvance
      exact ⟨rfl, rfl, rfl⟩
  · exact ⟨rfl, rfl, rfl⟩

omit [ManagedObject Obj] in
theorem length_begin (r : Request) : r.begin.items.length = r.size := by
  unfold Request.begin
  split
  · cases hadvance : r.advance? with
    | none => rfl
    | some r' =>
      obtain ⟨phase, -, rfl⟩ := Option.map_eq_some_iff.mp hadvance
      exact List.length_map _
  · rfl

omit [ManagedObject Obj] in
theorem Ready.suits_begin (h : S.Ready r) : ∀ x ∈ r.begin.items, S.Suits x := by
  intro x hx
  obtain ⟨y, hy, rfl | rfl⟩ := mem_begin hx
  · exact h.suits x hy
  · exact (h.suits y hy).of_eq rfl

omit [ManagedObject Obj] in
/-- What a pass makes of the items of a request that reads leaves it ready to be taken up again. -/
theorem Ready.read (h : S.Ready r) (hkind : S.who.kind ≠ .set) {items : List Item} (bulkDone : Bool)
    (hitems : ∀ x ∈ items, S.Suits x) (hsized : Repetition.start r ≤ items.length) :
    S.Ready { r.begin with items, bulkDone }.retry := by
  obtain ⟨hrequester, hpdu, hstatus⟩ := begin_kept r
  refine ⟨hrequester.trans h.requester, (congrArg Pdu.kind hpdu).trans h.kind,
    (congrArg Status.isError hstatus).trans h.status, ?_, ?_,
    fun hset => absurd hset hkind, ?_⟩
  · intro x hx
    obtain ⟨y, hy, rfl⟩ := List.mem_map.mp hx
    exact (hitems y hy).of_eq rfl
  · intro x hx
    obtain ⟨y, hy, rfl⟩ := List.mem_map.mp hx
    rfl
  · rw [show ({ r.begin with items, bulkDone } : Request).retry.size = items.length from List.length_map _,
      Bulk.start_congr (show ({ r.begin with items, bulkDone } : Request).retry.pdu = r.pdu from hpdu)]
    exact hsized

omit [ManagedObject Obj] in
/-- A request with an open item is not complete. -/
theorem isComplete_of_open (hstatus : r.status.isError = false) (hx : x ∈ r.items) (hopen : x.complete = false) :
    r.isComplete = false := by
  have hnot : r.items.all Item.complete = false := List.all_eq_false.mpr ⟨x, hx, by simp [hopen]⟩
  simp [Request.isComplete, Request.isPhaseComplete, hstatus, hnot]

/-- One pass over the open items of a request. -/
def readThrough (serve : Item → Doing Obj (Item × Option Error)) (r : Request) :
    Doing Obj (Request × Option Error) := do
  let (items, error) ← serveOpen serve r.begin.items
  return ({ r.begin with items }, error)

omit [ManagedObject Obj] in
theorem mem_retry (hx : x ∈ r.items) : { x with deferred := false } ∈ r.retry.items :=
  List.mem_map_of_mem (f := fun i : Item => { i with deferred := false }) hx

section Through
variable {serve : Item → Doing Obj (Item × Option Error)}
  (hserve : ∀ x s, S.Holds s → S.Suits x → x.complete = false → (serve x).Gives s (S.Serves callback s))
  (hagain : ∀ x st s, S.Holds s → S.Suits x → S.Owes callback st x →
    (serve x).Gives s fun _ t => st.Recalled s t)
include hserve hagain

theorem readThrough_leaves (hkind : S.who.kind ≠ .set) {run : Request → Doing Obj (Request × Option Error)}
    (hrun : ∀ r, r.requester = S.who → run r = readThrough serve r) (hs : S.Holds s) (hr : S.Ready r) :
    (run r).Gives s (S.Leaves run s) := by
  rw [hrun r hr.requester, readThrough, Activity.gives_bind]
  refine (serveOpen_serves hserve _ s hs hr.suits_begin).mono (fun _ => id) ?_
  rintro ⟨items, error⟩ t ht
  have hready := hr.read hkind r.begin.bulkDone ht.suits (by rw [ht.length, length_begin]; exact hr.sized)
  refine ⟨ht.holds, hready, ht.fault, ?_⟩
  obtain ⟨steps, hsteps, howes⟩ := ht.steps
  refine ⟨steps, hsteps, fun st hst hoff _ hnone => ?_⟩
  obtain ⟨x, hx, howes⟩ := howes st hst hoff hnone
  have hstatus := (congrArg Status.isError (begin_kept r).2.2).trans hr.status
  refine ⟨isComplete_of_open hstatus hx howes.unfinished, fun s' hs' => ?_⟩
  have hbegun : ({ r.begin with items } : Request).retry.begin = ({ r.begin with items } : Request).retry :=
    begin_of_phase (phase_begin r)
  rw [hrun _ hready.requester, readThrough, hbegun, Activity.gives_bind]
  have howes' := howes.retry
  have hcalls (s : State Obj) (hs : S.Holds s) :=
    hagain { x with deferred := false } st s hs ((ht.suits x hx).of_eq rfl) howes'
  exact serveOpen_recalls hserve howes'.unfinished hcalls _ s' (mem_retry hx) hs' hready.suits

end Through

variable (hversion : S.who.version ≠ .v1) (hs : S.Holds s) (hr : S.Ready r)
include hversion hs hr

theorem get_leaves (hkind : S.who.kind = .get) :
    (Get.run S.policy S.registry r).Gives s (S.Leaves (Get.run S.policy S.registry) s) := by
  have hsearch : S.who.kind.isSearch = false := by rw [hkind]; rfl
  refine readThrough_leaves (fun x s hs hx _ => get_serves hversion hs hx hsearch)
    (fun x st s hs hx => get_recalls hs hx hsearch) (by simp [hkind]) (fun r hrequester => ?_) hs hr
  rw [← hrequester, ← (begin_kept r).1]
  rfl

theorem next_leaves (hkind : S.who.kind = .getNext) (hkeeps : KeepsFinds Obj) :
    (Next.run S.policy S.registry r).Gives s (S.Leaves (Next.run S.policy S.registry) s) := by
  have hsearch : S.who.kind.isSearch = true := by rw [hkind]; rfl
  refine readThrough_leaves (fun x s hs _ _ => search_serves hversion hs hsearch hkeeps)
    (fun x st s hs _ => search_recalls hversion hs hsearch hkeeps) (by simp [hkind]) (fun r hrequester => ?_) hs hr
  rw [← hrequester, ← (begin_kept r).1]
  rfl

end Requests
end Solo
end Responder
