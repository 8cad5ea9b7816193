import Responder.Proofs.Custody.Grip

/-! Writing under locks. A request that writes keeps hold of what it has prepared, through every phase and every pass
    (`Set.Grip`): it prepares nothing without the lock, and commits and undoes only what it has prepared. A lock is
    given back with the cleanup of each item, so a request that is complete is engaged with nothing
    (`Set.run_alone`). -/

namespace Responder

/-- What a phase finds and leaves: what is committed or undone was prepared on an object, and what is cleaned up is on
none any more. -/
def Phase.Suits : Phase → List Item → Prop
  | .start, xs => ∀ x ∈ xs, x.prepared = false
  | .prepare, xs => ((∃ x ∈ xs, x.hasError = true) ∨ ∀ x ∈ xs, x.complete = true → x.target.isSome = true) ∧
      ∀ x ∈ xs, x.prepared = true → x.target.isSome = true
  | .commit, xs => ∀ x ∈ xs, x.target.isSome = true
  | .undo, xs => ∀ x ∈ xs, x.prepared = true → x.target.isSome = true
  | .cleanup, xs => ∀ x ∈ xs, x.complete = true → x.target = none
  | .process, _ => True

namespace Phase.Suits

variable {phase : Phase} {done rest : List Item} {x y : Item}

/-- While items are prepared, one is replaced by another that has an error or is not over without an object. -/
theorem replace_prepare (h : Phase.prepare.Suits (done ++ x :: rest))
    (herror : x.hasError = true → y.hasError = true)
    (hover : y.hasError = true ∨ (y.complete = true → y.target.isSome = true))
    (hprepared : y.prepared = true → y.target.isSome = true) : Phase.prepare.Suits (done ++ y :: rest) := by
  have hmem : y ∈ done ++ y :: rest := by simp
  refine ⟨?_, forall_replace h.2 hprepared⟩
  rcases hover with hy | hy
  · exact Or.inl ⟨y, hmem, hy⟩
  · refine h.1.imp ?_ fun hc => forall_replace hc hy
    rintro ⟨z, hz, hzerror⟩
    rcases List.mem_append.mp hz with hz | hz
    · exact ⟨z, List.mem_append_left _ hz, hzerror⟩
    · rcases List.mem_cons.mp hz with rfl | hz
      · exact ⟨y, hmem, herror hzerror⟩
      · exact ⟨z, List.mem_append_right _ (List.mem_cons_of_mem _ hz), hzerror⟩

/-- An item is replaced by one that is on an object. -/
theorem replace (h : phase.Suits (done ++ x :: rest)) (hphase : phase ∈ [.prepare, .commit, .undo])
    (htarget : y.target.isSome = true) (herror : x.hasError = true → y.hasError = true) :
    phase.Suits (done ++ y :: rest) := by
  cases phase with
  | prepare => exact replace_prepare h herror (Or.inr fun _ => htarget) fun _ => htarget
  | commit => exact forall_replace h htarget
  | undo => exact forall_replace h fun _ => htarget
  | _ => simp at hphase

end Phase.Suits

namespace Set

variable {Obj : Type}

/-- A pass has hold of what its request has prepared. -/
structure Grip (entries : Nat → List Entry) (number : Nat) (who : Requester) (s₀ : State Obj) (phase : Phase)
    (s : State Obj) (xs : List Item) : Prop where
  watch : Watch entries number who s₀ s
  tied : Tied (entries number) number who s (xs.map Item.spot)
  suits : phase.Suits xs

variable {entries : Nat → List Entry} {number : Nat} {who : Requester} {s₀ s t : State Obj} {phase : Phase}
  {done rest : List Item} {x y : Item} {object : ObjectId}

namespace Grip

theorem map_spot (done : List Item) (x : Item) (rest : List Item) :
    (done ++ x :: rest).map Item.spot = done.map Item.spot ++ x.spot :: rest.map Item.spot := by
  rw [List.map_append, List.map_cons]

theorem later {xs : List Item} (h : Grip entries number who s₀ phase s xs) (ht : s.Later t) :
    Grip entries number who s₀ phase t xs where
  watch := by
    obtain ⟨now, released, rfl⟩ := ht
    exact h.watch.quiet (.of_later h.watch.mine.sound ⟨now, released, rfl⟩) rfl
  tied := by
    obtain ⟨now, released, rfl⟩ := ht
    exact h.tied.of_same rfl fun _ => le_rfl
  suits := h.suits

theorem replace (h : Grip entries number who s₀ phase s (done ++ x :: rest)) (hspot : y.spot = x.spot)
    (hsuits : phase.Suits (done ++ y :: rest)) : Grip entries number who s₀ phase s (done ++ y :: rest) := by
  refine ⟨h.watch, ?_, hsuits⟩
  rw [map_spot, hspot, ← map_spot]
  exact h.tied

theorem refuse (h : Grip entries number who s₀ phase s (done ++ x :: rest)) (callback : Callback) (status : Status)
    (hsuits : phase.Suits (done ++ (s.refuse callback who x status).1 :: rest)) :
    Grip entries number who s₀ phase (s.refuse callback who x status).2
      (done ++ (s.refuse callback who x status).1 :: rest) := by
  have hrefused : Grip entries number who s₀ phase (s.refuse callback who x status).2 (done ++ x :: rest) :=
    ⟨h.watch.enter (.refuse h.watch.mine.sound callback x status) rfl fun _ ho => (by cases ho),
      h.tied.enter rfl rfl (Or.inl rfl), h.suits⟩
  refine hrefused.replace ?_ hsuits
  simp only [State.refuse, Item.spot, Item.finish_index, Item.finish_region, Item.finish_target, Item.setError_index,
    Item.setError_region, Item.setError_target]

section Calls
variable [ManagedObject Obj]

theorem spot_call (s : State Obj) (callback : Callback) (who : Requester) (object : ObjectId) (x : Item) :
    (s.call callback who object x).1.1.spot = x.spot := by
  simp only [State.call, Item.spot, Item.editAll_index, Item.editAll_region, Item.editAll_target]

theorem target_call (s : State Obj) (callback : Callback) (who : Requester) (object : ObjectId) (x : Item) :
    (s.call callback who object x).1.1.target = x.target := x.editAll_target _

theorem hasError_call (s : State Obj) (callback : Callback) (who : Requester) (object : ObjectId) (x : Item)
    (h : x.hasError = true) : (s.call callback who object x).1.1.hasError = true := x.hasError_editAll _ h

variable (hset : who.kind = .set)
include hset

/-- An item is committed or undone on the object that it was prepared on, whose lock is held for it. -/
theorem call (h : Grip entries number who s₀ phase s (done ++ x :: rest)) (hphase : phase ∈ [.prepare, .commit, .undo])
    (hx : x.target = some object) {callback : Callback} (hcallback : callback ∈ [.commit, .undo]) :
    Grip entries number who s₀ phase (s.call callback who object x).2
      (done ++ (s.call callback who object x).1.1 :: rest) := by
  have hsets : callback ∈ who.kind.callbacks := by
    rw [hset]
    rcases List.mem_cons.mp hcallback with rfl | hcallback
    · simp [Pdu.Kind.callbacks]
    · simp [Pdu.Kind.callbacks, List.mem_singleton.mp hcallback]
  have hmem : x.spot ∈ (done ++ x :: rest).map Item.spot := List.mem_map_of_mem (by simp)
  have hobject : Registers entries number object := by
    obtain ⟨e, he, heobject, -⟩ := h.tied.found x.spot hmem object hx
    exact ⟨e, he, heobject⟩
  have hheld : 1 ≤ (s.registry number).locks.count who.transaction object := by
    refine le_trans ?_ (h.tied.backed object)
    exact List.countP_pos_iff.mpr ⟨x.spot, hmem, decide_eq_true hx⟩
  have hcalled : Grip entries number who s₀ phase (s.call callback who object x).2 (done ++ x :: rest) := by
    refine ⟨h.watch.enter (.call h.watch.mine.sound hsets hobject x) rfl ?_, h.tied.enter rfl rfl (Or.inr ?_), h.suits⟩
    · rintro o ⟨⟩ -
      exact hheld
    · rcases List.mem_cons.mp hcallback with rfl | hcallback
      · exact ⟨by simp, by simp⟩
      · obtain rfl := List.mem_singleton.mp hcallback
        exact ⟨by simp, by simp⟩
  refine hcalled.replace (spot_call s callback who object x) (h.suits.replace hphase ?_ ?_)
  · rw [target_call, hx]
    rfl
  · exact hasError_call s callback who object x

theorem prepare (h : Grip entries number who s₀ .prepare s (done ++ x :: rest))
    (hordered : Registry.Ordered (entries number)) {e : Entry} (he : e ∈ entries number)
    (hover : x.region.overlaps e.region = true)
    (hspare : ∀ object, (((done ++ x :: rest).map Item.spot).countP fun x => x.target = some object) +
      (if object = e.object then 1 else 0) ≤ (s.registry number).locks.count who.transaction object) :
    Grip entries number who s₀ .prepare (s.call .prepare who e.object { x with target := some e.object }).2
      (done ++ (s.call .prepare who e.object { x with target := some e.object }).1.1 :: rest) := by
  let aimed : Item := { x with target := some e.object }
  have hsets : Callback.prepare ∈ who.kind.callbacks := by simp [hset, Pdu.Kind.callbacks]
  refine ⟨h.watch.enter (.call h.watch.mine.sound hsets ⟨e, he, rfl⟩ aimed) rfl ?_, ?_, ?_⟩
  · rintro object ⟨⟩ -
    have hs := hspare e.object
    rw [if_pos rfl] at hs
    omega
  · rw [map_spot, spot_call]
    rw [map_spot] at hspare
    have htied := h.tied
    rw [map_spot] at htied
    exact htied.prepare hordered he hover hspare rfl rfl rfl rfl
  · refine h.suits.replace (by simp) ?_ fun herror => hasError_call s .prepare who e.object aimed herror
    rw [target_call]
    rfl

theorem cleanup (h : Grip entries number who s₀ .cleanup s (done ++ x :: rest)) (hx : x.target = some object) :
    Grip entries number who s₀ .cleanup
      ((s.unlock number who.transaction object).2.call .cleanup who object { x with target := none }).2
      (done ++ ((s.unlock number who.transaction object).2.call .cleanup who object
        { x with target := none }).1.1.finish :: rest) := by
  let free : State Obj := (s.unlock number who.transaction object).2
  let loose : Item := { x with target := none }
  have hsets : Callback.cleanup ∈ who.kind.callbacks := by simp [hset, Pdu.Kind.callbacks]
  have hobject : Registers entries number object := by
    have hmem : x.spot ∈ (done ++ x :: rest).map Item.spot := List.mem_map_of_mem (by simp)
    obtain ⟨e, he, heobject, -⟩ := h.tied.found x.spot hmem object hx
    exact ⟨e, he, heobject⟩
  have hunlock : Touches number who (Registers entries number) s free := .unlock h.watch.mine.sound object
  have hjournal : free.journal = s.journal := State.journal_eq_of_bare (s.bare_unlock number _ _)
  have hfreed := h.watch.quiet hunlock hjournal
  refine ⟨hfreed.enter (.call hfreed.mine.sound hsets hobject loose) rfl ?_, ?_, ?_⟩
  · rintro o ⟨⟩ hne
    exact absurd rfl hne
  · have htied := h.tied
    rw [map_spot] at htied
    have hspot : ((free.call .cleanup who object loose).1.1.finish).spot = loose.spot :=
      spot_call free .cleanup who object loose
    rw [map_spot, hspot]
    exact htied.cleanup hx (congrArg (· ++ [_]) hjournal) (State.count_unlock h.watch.mine.sound) rfl rfl rfl rfl
  · exact forall_replace h.suits fun _ => target_call free .cleanup who object loose

end Calls
end Grip

/-! ### Phases -/

section Phases
variable [ManagedObject Obj] {p : Policy}

theorem spot_ready (x : Item) : (ready x).spot = x.spot ∧ (ready x).hasError = x.hasError := by
  unfold ready
  split <;> exact ⟨rfl, rfl⟩

theorem spot_finish (x : Item) : x.finish.spot = x.spot ∧ x.finish.hasError = x.hasError := ⟨rfl, rfl⟩

omit [ManagedObject Obj] in
/-- The item goes before those that the rest of a pass goes over. -/
theorem behind_alone {next : Doing Obj Pass} {here : State Obj → Prop}
    (hnext : next.Alone here s fun pass t => Grip entries number who s₀ phase t ((done ++ [y]) ++ pass.items))
    (error : Option Error) : Activity.Alone (do return (← next).behind y error) here s
      fun pass t => Grip entries number who s₀ phase t (done ++ pass.items) := by
  refine .bind hnext fun pass t h => ?_
  rw [List.append_assoc] at h
  exact h

omit [ManagedObject Obj] in
/-- What a phase does with an item after its object was called. -/
theorem settled_alone {out : Item × Except Fault Bool}
    (h : Grip entries number who s₀ phase s (done ++ out.1 :: rest)) (hphase : phase ∈ [.prepare, .commit, .undo])
    (htarget : out.1.target.isSome = true) (status : Status) {close : Item → Item}
    (hclose : ∀ x : Item, (close x).spot = x.spot ∧ (close x).hasError = x.hasError) {next : Item → Doing Obj Pass}
    (hnext : ∀ y, Grip entries number who s₀ phase s ((done ++ [y]) ++ rest) →
      (next y).Alone (Watch entries number who s₀) s
        fun pass t => Grip entries number who s₀ phase t ((done ++ [y]) ++ pass.items)) :
    Activity.Alone (match out.2 with
      | .ok _ =>
        if out.1.deferred then return { items := out.1 :: rest, paused := true }
        else return (← next (close out.1)).behind (close out.1) none
      | .error fault =>
        return (← next (p.report out.1 status fault).1).behind (p.report out.1 status fault).1
          (p.report out.1 status fault).2 : Doing Obj Pass) (Watch entries number who s₀) s
      fun pass t => Grip entries number who s₀ phase t (done ++ pass.items) := by
  -- However the item goes on, it stays in its place and keeps an error that it has.
  have hgoes {y : Item} (hspot : y.spot = out.1.spot) (herror : out.1.hasError = true → y.hasError = true) :
      Grip entries number who s₀ phase s ((done ++ [y]) ++ rest) := by
    have hytarget : y.target = out.1.target := congrArg Spot.target hspot
    rw [List.append_assoc]
    exact h.replace hspot (h.suits.replace hphase (hytarget ▸ htarget) herror)
  split
  · split
    · exact h
    · exact behind_alone (hnext _ (hgoes (hclose _).1 fun herror => (hclose _).2.trans herror)) none
  · next fault _ =>
    refine behind_alone (hnext _ (hgoes ?_ fun herror => ?_)) _
    · simp only [Policy.report, Item.spot, Item.finish_index, Item.finish_region, Item.finish_target,
        Item.setError_index, Item.setError_region, Item.setError_target]
    · simp only [Policy.report, Item.hasError_finish, Item.hasError_setError, herror, Bool.true_or]

/-- The look-up for an item that is prepared takes the lock of what it finds, once more than there are items on it. -/
theorem look_alone (htidy : s₀.Tidy entries) (hlocking : (s₀.registry number).locking.GuardsWrites)
    (h : Grip entries number who s₀ .prepare s (done ++ x :: rest)) :
    (p.lookUp number who (p.query who x.region true)).Alone (Watch entries number who s₀) s fun f t =>
      Grip entries number who s₀ .prepare t (done ++ x :: rest) ∧ ∀ e, f.entry = some e →
        e ∈ entries number ∧ x.region.overlaps e.region = true ∧
          ∀ object, (((done ++ x :: rest).map Item.spot).countP fun x => x.target = some object) +
            (if object = e.object then 1 else 0) ≤ (t.registry number).locks.count who.transaction object := by
  have hsound := h.watch.mine.sound
  have hentries : (s.registry number).entries = entries number := (h.watch.toTouches.tidy htidy).entries number
  refine (Lookup.run_alone hsound p.patience).mono (fun t ht => (h.later ht).watch) fun f t hfound => ?_
  cases hfound with
  | nothing hentry ht => exact ⟨h.later ht, fun e he => by rw [hentry] at he; cases he⟩
  | unlocked he hover hentry hterms hlock ht =>
    have hlocks : (s.registry number).locksFor who.transaction (p.query who x.region true) = true := by
      rw [Registry.locksFor, h.watch.locking number]
      exact hlocking _ _ rfl
    cases hterms.symm.trans (Lookup.locking?_eq_some.mpr ⟨rfl, hlocks⟩)
  | @locked e' held _ he hover hentry hterms hlock htaken ht =>
    have hheld : some (p.terms who) = some held := (Lookup.locking?_eq_some.mp hterms).1
    obtain rfl := Option.some.inj hheld
    have hnumber : number < s.registries.length := by
      by_contra hge
      rw [State.registry, List.getD_eq_getElem?_getD, List.getElem?_eq_none (Nat.le_of_not_lt hge)] at he
      cases he
    have hcount (o : ObjectId) : ((s.tryLock number who.transaction e'.object).2.registry number).locks.count
        who.transaction o = (s.registry number).locks.count who.transaction o + if o = e'.object then 1 else 0 :=
      State.count_tryLock hsound hnumber htaken o
    have hjournal := State.journal_eq_of_bare (s.bare_tryLock number who.transaction e'.object)
    have hlocked : Grip entries number who s₀ .prepare (s.tryLock number who.transaction e'.object).2
        (done ++ x :: rest) :=
      ⟨h.watch.quiet (.tryLock hsound e'.object) hjournal,
        h.tied.of_same hjournal fun o => by rw [hcount]; exact Nat.le_add_right _ _, h.suits⟩
    refine ⟨hlocked.later ht, fun e he' => ?_⟩
    obtain rfl := Option.some.inj (hentry.symm.trans he')
    refine ⟨hentries ▸ he, hover, fun o => ?_⟩
    rw [ht.registry, show ((s.tryLock number (p.terms who).owner e'.object).2.registry number).locks.count
      who.transaction o = _ from hcount o]
    exact Nat.add_le_add_right (h.tied.backed o) _

variable (hset : who.kind = .set) (hordered : Registry.Ordered (entries number))
include hset

include hordered in
theorem prepare_alone (htidy : s₀.Tidy entries) (hlocking : (s₀.registry number).locking.GuardsWrites) :
    ∀ (rest done : List Item) (failed : Bool) (s : State Obj), Grip entries number who s₀ .prepare s (done ++ rest) →
      (prepare p number who failed rest).Alone (Watch entries number who s₀) s
        fun pass t => Grip entries number who s₀ .prepare t (done ++ pass.items)
  | [], done, _, s, h => h
  | x :: rest, done, failed, s, h => by
    rw [prepare]
    split
    · exact h
    · split
      · exact behind_alone (prepare_alone htidy hlocking rest (done ++ [x]) failed s (by rwa [List.append_assoc])) none
      · next hopen =>
        refine .bind (look_alone htidy hlocking h) fun f t hlooked => ?_
        obtain ⟨ht, hf⟩ := hlooked
        split
        · split
          · refine ht.replace rfl (ht.suits.replace_prepare id (Or.inr fun hc => absurd hc hopen) ?_)
            exact ht.suits.2 x (by simp)
          · have herror : ((absence (p.query who x.region true) x.oid).isError) = true := isError_absence _ _
            refine ht.refuse .prepare _ (ht.suits.replace_prepare (fun _ => ?_) (Or.inl ?_) ?_)
            · simp [State.refuse, herror]
            · simp [State.refuse, herror]
            · simpa [State.refuse] using ht.suits.2 x (by simp)
        · next e he =>
          obtain ⟨hmem, hover, hspare⟩ := hf e he
          have hcalled : Activity.Alone (callObject .prepare who e.object { x with target := some e.object })
              (Watch entries number who s₀) t fun out u =>
                Grip entries number who s₀ .prepare u (done ++ out.1 :: rest) ∧ out.1.target.isSome = true :=
            ⟨ht.prepare hset hordered hmem hover hspare, congrArg Option.isSome (Grip.target_call t _ who _ _)⟩
          refine .bind hcalled fun out u hout => ?_
          obtain ⟨hu, htarget⟩ := hout
          exact settled_alone hu (by simp) htarget .genErr spot_ready fun y hy =>
            prepare_alone htidy hlocking rest (done ++ [y]) y.hasError u hy

omit hset in
theorem target_alone {here : State Obj → Prop} (hx : x.target.isSome = true) : (target? p number who x).Alone here s
    fun object t => t = s ∧ object = x.target := by
  obtain ⟨object, hobject⟩ := Option.isSome_iff_exists.mp hx
  simp only [target?, hobject]
  exact ⟨rfl, rfl⟩

theorem again_alone (h : Grip entries number who s₀ phase s (done ++ x :: rest))
    (hphase : phase ∈ [.prepare, .commit, .undo]) (hx : x.target = some object) {callback : Callback}
    (hcallback : callback ∈ [.commit, .undo]) :
    Activity.Alone (callObject callback who object x) (Watch entries number who s₀) s fun out t =>
      Grip entries number who s₀ phase t (done ++ out.1 :: rest) ∧ out.1.target.isSome = true := by
  have htarget : (s.call callback who object x).1.1.target = some object := (Grip.target_call s _ _ _ _).trans hx
  exact ⟨h.call hset hphase hx hcallback, congrArg Option.isSome htarget⟩

theorem commit_alone : ∀ (rest done : List Item) (failed : Bool) (s : State Obj),
    Grip entries number who s₀ .commit s (done ++ rest) →
      (commit p number who failed rest).Alone (Watch entries number who s₀) s
        fun pass t => Grip entries number who s₀ .commit t (done ++ pass.items)
  | [], done, _, s, h => h
  | x :: rest, done, failed, s, h => by
    rw [commit]
    split
    · exact h
    · split
      · exact behind_alone (commit_alone rest (done ++ [x]) failed s (by rwa [List.append_assoc])) none
      · have hx : x.target.isSome = true := h.suits x (by simp)
        refine .bind (target_alone hx) fun object t haimed => ?_
        obtain ⟨rfl, hobject⟩ := haimed
        cases object with
        | none => rw [← hobject] at hx; cases hx
        | some object =>
          refine .bind (again_alone hset h (by simp) hobject.symm (by simp)) fun out u hout => ?_
          obtain ⟨hu, htarget⟩ := hout
          exact settled_alone hu (by simp) htarget .commitFailed spot_finish fun y hy =>
            commit_alone rest (done ++ [y]) y.hasError u hy

theorem undo_alone : ∀ (rest done : List Item) (s : State Obj), Grip entries number who s₀ .undo s (done ++ rest) →
    (undo p number who rest).Alone (Watch entries number who s₀) s
      fun pass t => Grip entries number who s₀ .undo t (done ++ pass.items)
  | [], done, s, h => h
  | x :: rest, done, s, h => by
    rw [undo]
    split
    · exact behind_alone (undo_alone rest (done ++ [x]) s (by rwa [List.append_assoc])) none
    · split
      · have hsuits : Phase.undo.Suits (done ++ x.finish :: rest) :=
          forall_replace h.suits (h.suits x (by simp))
        refine behind_alone (undo_alone rest (done ++ [x.finish]) s ?_) none
        rw [List.append_assoc]
        exact h.replace rfl hsuits
      · next hprepared =>
        have hx : x.target.isSome = true := h.suits x (by simp) (by simpa using hprepared)
        refine .bind (target_alone hx) fun object t haimed => ?_
        obtain ⟨rfl, hobject⟩ := haimed
        cases object with
        | none => rw [← hobject] at hx; cases hx
        | some object =>
          refine .bind (again_alone hset h (by simp) hobject.symm (by simp)) fun out u hout => ?_
          obtain ⟨hu, htarget⟩ := hout
          exact settled_alone hu (by simp) htarget .undoFailed spot_finish fun y hy =>
            undo_alone rest (done ++ [y]) u hy

theorem cleanup_alone : ∀ (rest done : List Item) (s : State Obj),
    Grip entries number who s₀ .cleanup s (done ++ rest) →
      (cleanup p number who rest).Alone (Watch entries number who s₀) s
        fun pass t => Grip entries number who s₀ .cleanup t (done ++ pass.items)
  | [], done, s, h => h
  | x :: rest, done, s, h => by
    rw [cleanup]
    split
    · exact behind_alone (cleanup_alone rest (done ++ [x]) s (by rwa [List.append_assoc])) none
    · split
      · next htarget =>
        have hsuits : Phase.cleanup.Suits (done ++ x.finish :: rest) :=
          forall_replace h.suits fun _ => htarget
        refine behind_alone (cleanup_alone rest (done ++ [x.finish]) s ?_) none
        rw [List.append_assoc]
        exact h.replace rfl hsuits
      · next object hobject =>
        have hcleaned : Activity.Alone (do
            modify fun s : State Obj => (s.unlock number who.transaction object).2
            callObject .cleanup who object { x with target := none }) (Watch entries number who s₀) s
            fun out t => Grip entries number who s₀ .cleanup t (done ++ out.1.finish :: rest) :=
          h.cleanup hset hobject
        rw [← bind_assoc]
        refine .bind hcleaned fun out t ht => ?_
        refine behind_alone (cleanup_alone rest (done ++ [out.1.finish]) t ?_) _
        rwa [List.append_assoc]

end Phases

/-! ### From phase to phase -/

/-- A request that writes has hold of what it has prepared. -/
structure Secured (S : Scene Obj) (entries : Nat → List Entry) (s₀ s : State Obj) (r : Request) : Prop where
  writes : Writes S r
  grip : Grip entries S.registry S.who s₀ r.phase s r.items

section Drive
variable {S : Scene Obj} {r r' : Request}

theorem Secured.map (h : Secured S entries s₀ s r) (hwrites : Writes S r') {f : Item → Item}
    (hitems : r'.items = r.items.map f) (hf : ∀ x, (f x).spot = x.spot) (hsuits : r'.phase.Suits (r.items.map f)) :
    Secured S entries s₀ s r' := by
  refine ⟨hwrites, h.grip.watch, ?_, hitems ▸ hsuits⟩
  rw [hitems, List.map_map, show Item.spot ∘ f = Item.spot from funext hf]
  exact h.grip.tied

theorem Secured.finishAll (h : Secured S entries s₀ s r) (herror : r.hasError = true)
    (hphase : r.phase = .prepare ∨ r.phase = .commit) : Secured S entries s₀ s r.finishAll := by
  have hsame (x : Item) : (if x.complete then x else x.finish).spot = x.spot ∧
      (if x.complete then x else x.finish).hasError = x.hasError ∧
      (if x.complete then x else x.finish).prepared = x.prepared := by split <;> exact ⟨rfl, rfl, rfl⟩
  have htarget (x : Item) : (if x.complete then x else x.finish).target = x.target := congrArg Spot.target (hsame x).1
  have hsuits := h.grip.suits
  refine h.map ⟨h.writes.who, h.writes.kind, h.writes.status, h.writes.phase⟩ rfl (fun x => (hsame x).1) ?_
  show r.phase.Suits _
  rcases hphase with hphase | hphase
  · rw [hphase] at hsuits ⊢
    refine ⟨Or.inl ?_, List.forall_mem_map.mpr fun x hx => ?_⟩
    · rw [Request.hasError, h.writes.status, Bool.false_or, List.any_eq_true] at herror
      obtain ⟨x, hx, hxerror⟩ := herror
      exact ⟨_, List.mem_map_of_mem hx, (hsame x).2.1.trans hxerror⟩
    · rw [(hsame x).2.2, htarget]
      exact hsuits.2 x hx
  · rw [hphase] at hsuits ⊢
    refine List.forall_mem_map.mpr fun x hx => ?_
    rw [htarget]
    exact hsuits x hx

theorem Secured.ended {pass : Pass} (hwrites : Writes S r)
    (h : Grip entries S.registry S.who s₀ r.phase s pass.items) (hphase : r.phase = .prepare ∨ r.phase = .commit) :
    Secured S entries s₀ s (ended r pass) := by
  have hsecured : Secured S entries s₀ s { r with items := pass.items } :=
    ⟨⟨hwrites.who, hwrites.kind, hwrites.status, hwrites.phase⟩, h⟩
  unfold Set.ended
  dsimp only
  split
  · next hgive => exact hsecured.finishAll (by simpa using (Bool.and_eq_true_iff.mp hgive).2) hphase
  · exact hsecured

/-- A phase that is over leaves what the next one needs. -/
theorem Secured.advance (h : Secured S entries s₀ s r) (hclose : r.phase = .start ∨ r.isPhaseComplete = true)
    (hr : r.advance? = some r') : Secured S entries s₀ s r' := by
  have hwrites := h.writes.advance hr
  obtain ⟨phase, hnext, rfl⟩ := advance?_eq hr
  have hsuits := h.grip.suits
  refine h.map hwrites rfl (fun _ => rfl) ?_
  show phase.Suits _
  cases h.writes.onward hnext with
  | begin hphase =>
    rw [hphase] at hsuits
    refine ⟨Or.inr (List.forall_mem_map.mpr fun x hx hc => by cases hc), List.forall_mem_map.mpr fun x hx hp => ?_⟩
    exact absurd (show x.prepared = true from hp) (by simp [hsuits x hx])
  | commit hphase hclear =>
    have hcomplete := h.writes.all_complete hclose (by simp [hphase])
    rw [hphase] at hsuits
    rw [Request.hasError, h.writes.status, Bool.false_or] at hclear
    refine List.forall_mem_map.mpr fun x hx => ?_
    refine (hsuits.1.resolve_left ?_) x hx (hcomplete x hx)
    rintro ⟨y, hy, herror⟩
    exact Bool.false_ne_true (hclear.symm.trans (List.any_eq_true.mpr ⟨y, hy, herror⟩))
  | rollBack hphase =>
    rw [hphase] at hsuits
    exact List.forall_mem_map.mpr hsuits.2
  | takeBack hphase =>
    rw [hphase] at hsuits
    exact List.forall_mem_map.mpr fun x hx _ => hsuits x hx
  | drop | conclude | wind => exact List.forall_mem_map.mpr fun x hx hc => by cases hc

theorem Secured.retry (h : Secured S entries s₀ s r) : Secured S entries s₀ s r.retry := by
  have hsuits := h.grip.suits
  refine h.map ⟨h.writes.who, h.writes.kind, h.writes.status, h.writes.phase⟩ rfl (fun _ => rfl) ?_
  show r.phase.Suits _
  cases hphase : r.phase <;> rw [hphase] at hsuits
  · exact List.forall_mem_map.mpr hsuits
  · trivial
  · refine ⟨hsuits.1.imp ?_ List.forall_mem_map.mpr, List.forall_mem_map.mpr hsuits.2⟩
    rintro ⟨x, hx, herror⟩
    exact ⟨_, List.mem_map_of_mem hx, herror⟩
  · exact List.forall_mem_map.mpr hsuits
  · exact List.forall_mem_map.mpr hsuits
  · exact List.forall_mem_map.mpr hsuits

/-- What others do leaves the request as secure as it was, if it loses no lock. -/
theorem Secured.frame (h : Secured S entries s₀ s r) (hsound : (t.registry S.registry).locks.Sound)
    {steps : List Step} (hjournal : t.journal = s.journal ++ steps)
    (hsteps : ∀ st ∈ steps, st.who.transaction ≠ S.who.transaction)
    (hlocks : ∀ object, (s.registry S.registry).locks.count S.who.transaction object ≤
      (t.registry S.registry).locks.count S.who.transaction object) : Secured S entries t t r :=
  ⟨h.writes, .refl hsound, h.grip.tied.frame hjournal hsteps hlocks, h.grip.suits⟩

theorem secured_start {pdu : Pdu} (hkind : pdu.kind = .set) (hsound : (s.registry S.registry).locks.Sound)
    (hnew : ∀ st ∈ s.journal, st.who.transaction ≠ S.who.transaction) (maxSize : Nat) (created : Instant) :
    Secured S entries s s (.start S.who pdu maxSize created) := by
  have hitem {x : Item} (hx : x ∈ (Request.start S.who pdu maxSize created).items) :
      x.prepared = false ∧ x.target = none ∧ ∃ o, x.region = (Region.point o).inContext (some S.who.context) := by
    have hregion (o : Oid) :
        Request.regionOf pdu S.who.context o = (Region.point o).inContext (some S.who.context) := by
      simp only [Request.regionOf, hkind]
      rfl
    obtain ⟨index, hindex, rfl⟩ := List.mem_mapIdx.mp hx
    exact ⟨rfl, rfl, _, hregion _⟩
  refine ⟨writes_start hkind maxSize created, .refl hsound, ⟨List.forall_mem_map.mpr fun x hx => (hitem hx).2.2,
    List.forall_mem_map.mpr fun x hx object hobject => ?_, fun object index hprepared _ => ?_, fun object => ?_⟩,
    fun x hx => (hitem hx).1⟩
  · rw [Item.spot, (hitem hx).2.1] at hobject
    cases hobject
  · obtain ⟨st, hst, hwho, -⟩ := hprepared
    exact absurd hwho (hnew st hst)
  · refine (List.countP_eq_zero.mpr ?_).trans_le (Nat.zero_le _)
    refine List.forall_mem_map.mpr fun x hx => ?_
    rw [Item.spot, (hitem hx).2.1]
    simp

/-- A request that is complete is engaged with nothing. -/
theorem Secured.not_engaged (h : Secured S entries s₀ s r) (hcomplete : r.isComplete = true) :
    ¬Engaged s.journal S.who.transaction object := by
  rintro ⟨index, hprepared, hcleaned⟩
  obtain ⟨x, hx, -, htarget⟩ := h.grip.tied.linked object index hprepared hcleaned
  obtain ⟨y, hy, rfl⟩ := List.mem_map.mp hx
  rw [h.writes.isComplete, Bool.and_eq_true, beq_iff_eq] at hcomplete
  have hsuits := h.grip.suits
  rw [hcomplete.1] at hsuits
  have hnone : y.spot.target = none := hsuits y hy (List.all_eq_true.mp hcomplete.2 y hy)
  rw [hnone] at htarget
  cases htarget

variable [ManagedObject Obj]

theorem pass_alone (htidy : s₀.Tidy entries) (hset : S.who.kind = .set)
    (hordered : Registry.Ordered (entries S.registry)) (hlocking : (s₀.registry S.registry).locking.GuardsWrites)
    (h : Secured S entries s₀ s r) : (pass S.policy S.registry r).Alone (Watch entries S.registry S.who s₀) s
      fun out t => Secured S entries s₀ t out.1 := by
  obtain ⟨policy, registry, who, rely⟩ := S
  obtain rfl : r.requester = who := h.writes.who
  have hgrip := h.grip
  have hgoes {items : List Item} {t : State Obj} (ht : Grip entries registry r.requester s₀ r.phase t items) :
      Secured ⟨policy, registry, r.requester, rely⟩ entries s₀ t { r with items } :=
    ⟨⟨rfl, h.writes.kind, h.writes.status, h.writes.phase⟩, ht⟩
  rw [pass]
  split
  · next hphase =>
    rw [hphase] at hgrip
    refine .bind (prepare_alone hset hordered htidy hlocking r.items [] _ s hgrip) fun pass t ht => ?_
    exact Secured.ended h.writes (hphase ▸ ht) (Or.inl hphase)
  · next hphase =>
    rw [hphase] at hgrip
    refine .bind (commit_alone hset r.items [] _ s hgrip) fun pass t ht => ?_
    exact Secured.ended h.writes (hphase ▸ ht) (Or.inr hphase)
  · next hphase =>
    rw [hphase] at hgrip
    exact .bind (undo_alone hset r.items [] s hgrip) fun pass t ht => hgoes (hphase ▸ ht)
  · next hphase =>
    rw [hphase] at hgrip
    exact .bind (cleanup_alone hset r.items [] s hgrip) fun pass t ht => hgoes (hphase ▸ ht)
  · exact h
  · exact h

theorem drive_alone (htidy : s₀.Tidy entries) (hset : S.who.kind = .set)
    (hordered : Registry.Ordered (entries S.registry)) (hlocking : (s₀.registry S.registry).locking.GuardsWrites) :
    ∀ (phases : Nat) (r : Request) (error : Option Error) (s : State Obj), Secured S entries s₀ s r →
      (drive S.policy S.registry phases r error).Alone (Watch entries S.registry S.who s₀) s
        fun out t => Secured S entries s₀ t out.1
  | 0, _, _, _, h => h
  | phases + 1, r, error, s, h => by
    rw [drive]
    split
    · exact h
    · next r' heq =>
      have h' : Secured S entries s₀ s r' := by
        split at heq
        · next hclose => exact h.advance hclose heq
        · exact Option.some.inj heq ▸ h
      split
      · exact h'
      · refine .bind (pass_alone htidy hset hordered hlocking h') fun out t ht => ?_
        dsimp only
        split
        · exact ht
        · exact drive_alone htidy hset hordered hlocking phases _ _ t ht

/-- A request that writes has hold of what it has prepared also after a pass that goes on alone. -/
theorem run_alone (htidy : s₀.Tidy entries) (hset : S.who.kind = .set)
    (hordered : Registry.Ordered (entries S.registry)) (hlocking : (s₀.registry S.registry).locking.GuardsWrites)
    (h : Secured S entries s₀ s r) : (run S.policy S.registry r).Alone (Watch entries S.registry S.who s₀) s
      fun out t => Secured S entries s₀ t out.1 := drive_alone htidy hset hordered hlocking phaseCount r none s h

end Drive
end Set
end Responder
