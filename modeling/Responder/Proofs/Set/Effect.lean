import Responder.Proofs.History
import Responder.Proofs.Set.Passes

/-! What serving an item of a request that writes adds to the history, and what becomes of the item. Either
    nothing is added (`Silent`), or one step is, from which the new item can be read (`Effect`). -/

namespace Responder

/-- What an object is called for in a phase of writing. -/
def Phase.callback : Phase → Callback
  | .prepare => .prepare
  | .commit => .commit
  | .undo => .undo
  | .cleanup => .cleanup
  | .start | .process => .get

namespace Set

variable {Obj : Type} [ManagedObject Obj] {S : Scene Obj}

/-- An item that is served without a step: its object could not be had in time, it had not been prepared when
it was to be undone, or it had no target when it was to be cleaned up. -/
inductive Silent : Phase → Item → Item → Prop
  | late (item : Item) : Silent .prepare item item.defer
  | unprepared {item : Item} (h : item.prepared = false) : Silent .undo item item.finish
  | untouched {item : Item} (h : item.target = none) : Silent .cleanup item item.finish

/-- What a step of a phase makes of an item. -/
structure Effect (phase : Phase) (item item' : Item) (st : Step) : Prop where
  active : phase.callback ≠ .get
  callback : st.callback = phase.callback
  index : st.index = item.index
  index' : item'.index = item.index
  complete : st.torn = false → item'.complete = st.closed
  prepared : item'.prepared = (item.prepared || (decide (phase = .prepare) && st.passed))
  error : phase = .prepare ∨ phase = .commit → item'.hasError = st.failed
  placed : phase = .prepare → item'.target = st.object.or item.target ∧ (st.object = none → st.failed = true)
  aimed : phase = .commit ∨ phase = .undo →
    item'.target = item.target ∧ ∀ object, item.target = some object → st.object = some object
  undone : phase = .undo → item.prepared = true
  cleaned : phase = .cleanup → item'.target = none ∧ st.object = item.target ∧ st.object.isSome = true
  waits : item'.deferred = true → st.after.deferred = true

theorem hasError_report (p : Policy) (item : Item) {status : Status} (hs : status.isError = true) (fault : Fault) :
    (p.report item status fault).1.hasError = true := by
  have hor : (fault.statusOr status).isError = true := by
    unfold Fault.statusOr
    split
    · split <;> assumption
    · exact hs
  show (item.setError (fault.statusOr status)).hasError = true
  rw [Item.hasError_setError, hor, Bool.or_true]

/-- How an item is left when it is over with a phase: without an error, it may count as prepared. -/
structure Closing (close : Item → Item) : Prop where
  complete : ∀ i, (close i).complete = true
  index : ∀ i, (close i).index = i.index
  target : ∀ i, (close i).target = i.target
  error : ∀ i, (close i).hasError = i.hasError
  prepared : ∀ i, i.hasError = true → (close i).prepared = i.prepared
  rested : ∀ i, (close i).deferred = false

theorem closing_finish : Closing Item.finish where
  complete _ := rfl
  index _ := rfl
  target _ := rfl
  error _ := rfl
  prepared _ _ := rfl
  rested _ := rfl

theorem closing_ready : Closing ready where
  complete _ := rfl
  index i := by unfold ready; split <;> rfl
  target i := by unfold ready; split <;> rfl
  error i := by unfold ready; split <;> rfl
  prepared i h := by simp [ready, h]
  rested _ := rfl

/-- An item that was called, as far as its step tells. -/
theorem settle_eq (p : Policy) {status : Status} (hs : status.isError = true) {close : Item → Item}
    (hclose : Closing close) (st : Step) (hc : st.callback ≠ .cleanup) (hobject : st.object.isSome = true) :
    let item' := (settle p status close (st.after, st.result)).1
    (st.torn = false → item'.complete = st.closed) ∧ item'.index = st.after.index ∧ item'.hasError = st.failed ∧
      item'.target = st.after.target ∧
      item'.prepared = if st.passed then (close st.after).prepared else st.after.prepared := by
  obtain ⟨who, callback, object, before, after, fault | _⟩ := st
  · refine ⟨fun _ => ?_, ?_, ?_, ?_, ?_⟩
    · simp [settle, Policy.report, Step.closed, Step.faulted]
    · simp [settle, Policy.report]
    · rw [show Step.failed _ = true by simp [Step.failed, Step.faulted]]
      exact hasError_report p after hs fault
    · simp [settle, Policy.report]
    · simp [settle, Policy.report, Step.passed, Step.failed, Step.faulted]
  · simp only at hc hobject
    cases hd : after.deferred
    · simp only [settle, hd, Bool.false_eq_true, if_false]
      refine ⟨fun _ => ?_, hclose.index _, ?_, hclose.target _, ?_⟩
      · simp [hclose.complete, Step.closed, hd]
      · simp [hclose.error, Step.failed, Step.faulted]
      · cases herror : after.hasError
        · simp [Step.passed, Step.closed, Step.failed, Step.faulted, hd, herror, hobject]
        · simp [Step.passed, Step.closed, Step.failed, Step.faulted, hd, herror, hclose.prepared after herror]
    · simp only [settle, hd, if_true]
      refine ⟨fun htorn => ?_, trivial, by simp [Step.failed, Step.faulted], trivial, ?_⟩
      · simp only [Step.torn, hd, Bool.and_true] at htorn
        simp [htorn, Step.closed, Step.faulted, hc, hd]
      · simp [Step.passed, Step.closed, Step.faulted, hc, hd]

/-- An item is left deferred only by an object that left it so. -/
theorem settle_waits {p : Policy} {status : Status} {close : Item → Item} (hclose : Closing close)
    {called : Item × Except Fault Bool} (h : (settle p status close called).1.deferred = true) :
    called.1.deferred = true := by
  by_contra hrested
  rw [Bool.not_eq_true] at hrested
  cases h.symm.trans (settle_rested hrested fun i => ⟨hclose.complete i, hclose.rested i⟩).2

/-- The others leave the history of a request alone. -/
def Discreet (S : Scene Obj) : Prop :=
  ∀ s t, S.rely s t → t.history S.who.transaction = s.history S.who.transaction

section Served
variable {phase : Phase} {item item' : Item} {s t : State Obj}

omit [ManagedObject Obj] in
theorem Discreet.steady (hS : Discreet S) (number : Nat) (h : List Step) :
    Steady S.rely number fun t => t.history S.who.transaction = h where
  locks hlocks hs := (State.history_eq_of_bare _ hlocks.bare).trans hs
  others hrely hs := (hS _ _ hrely).trans hs

theorem Discreet.look (hS : Discreet S) (item : Item) (s : State Obj) : (S.look item).Ensures S.rely
    (fun t => t.history S.who.transaction = s.history S.who.transaction) s
    fun _ t => t.history S.who.transaction = s.history S.who.transaction :=
  (Lookup.run_ensures (E := fun _ => True) (hS.steady _ _) (by simp) _ rfl).mono (fun _ => id) fun _ _ => And.left

theorem history_aim {object : Option ObjectId} (h : (S.aim item).Yields S.rely s object t) :
    t = s ∧ ∀ target, item.target = some target → object = some target :=
  (Activity.ensures_iff.mp (aim_ensures item s)).2 _ _ h

omit [ManagedObject Obj] in
theorem target_of_aim (h : ∀ target, item.target = some target → none = some target) : item.target = none := by
  cases htarget : item.target with
  | none => rfl
  | some target => cases h target htarget

omit [ManagedObject Obj] in
theorem effect_refuse (phase : Phase) {status : Status} (hs : status.isError = true) (hd : item.deferred = false)
    (hactive : phase.callback ≠ .get) (hphase : phase ≠ .cleanup)
    (haim : phase = .commit ∨ phase = .undo → item.target = none) (hundo : phase = .undo → item.prepared = true)
    (s : State Obj) : Effect phase item (s.refuse phase.callback S.who item status).1
      ⟨S.who, phase.callback, none, item, item.setError status, .ok false⟩ where
  active := hactive
  callback := rfl
  index := rfl
  index' := item.setError_index status
  complete _ := by simp [Step.closed, State.refuse, hd]
  prepared := by simp [State.refuse, Step.passed]
  error _ := by simp [State.refuse, Step.failed, hs]
  placed _ := by simp [State.refuse, Step.failed, hs]
  aimed h := by simp [State.refuse, haim h]
  undone := hundo
  cleaned h := absurd h hphase
  waits h := by cases h

theorem effect_prepare (item : Item) (object : ObjectId) (s : State Obj) :
    Effect .prepare item
      (settle S.policy .genErr ready (s.call .prepare S.who object { item with target := some object }).1).1
      ⟨S.who, .prepare, some object, { item with target := some object },
        (s.call .prepare S.who object { item with target := some object }).1.1,
        (s.call .prepare S.who object { item with target := some object }).1.2⟩ := by
  obtain ⟨hcomplete, hindex, herror, htarget, hprepared⟩ := settle_eq S.policy
    (rfl : Status.genErr.isError = true) closing_ready
    ⟨S.who, .prepare, some object, { item with target := some object },
      (s.call .prepare S.who object { item with target := some object }).1.1,
      (s.call .prepare S.who object { item with target := some object }).1.2⟩ (by simp) rfl
  refine ⟨by decide, rfl, rfl, ?_, hcomplete, ?_, fun _ => herror, fun _ => ⟨?_, by simp⟩, by simp, by simp, by simp,
    settle_waits closing_ready⟩
  · exact hindex.trans (Item.editAll_index _ _)
  · rw [hprepared]
    split
    · next hpassed =>
      have hok : (s.call .prepare S.who object { item with target := some object }).1.1.hasError = false := by
        simp only [Step.passed, Step.failed, Bool.and_eq_true, Bool.not_eq_true', Bool.or_eq_false_iff] at hpassed
        exact hpassed.2.1
      simp [hpassed, ready, hok]
    · next hpassed =>
      rw [Bool.not_eq_true] at hpassed
      rw [hpassed, Bool.and_false, Bool.or_false]
      exact Item.editAll_prepared _ _
  · exact htarget.trans (Item.editAll_target _ _)

theorem effect_call (phase : Phase) {status : Status} (hs : status.isError = true)
    (hphase : phase = .commit ∨ phase = .undo) {object : ObjectId}
    (haim : ∀ target, item.target = some target → some object = some target)
    (hundo : phase = .undo → item.prepared = true) (s : State Obj) :
    Effect phase item (settle S.policy status Item.finish (s.call phase.callback S.who object item).1).1
      ⟨S.who, phase.callback, some object, item, (s.call phase.callback S.who object item).1.1,
        (s.call phase.callback S.who object item).1.2⟩ := by
  have hcleanup : phase.callback ≠ .cleanup := by rcases hphase with rfl | rfl <;> decide
  have hactive : phase.callback ≠ .get := by rcases hphase with rfl | rfl <;> decide
  have hprepare : phase ≠ .prepare := by rcases hphase with rfl | rfl <;> simp
  obtain ⟨hcomplete, hindex, herror, htarget, hprepared⟩ := settle_eq S.policy hs closing_finish
    ⟨S.who, phase.callback, some object, item, (s.call phase.callback S.who object item).1.1,
      (s.call phase.callback S.who object item).1.2⟩ hcleanup rfl
  refine ⟨hactive, rfl, rfl, ?_, hcomplete, ?_, fun _ => herror, fun h => absurd h hprepare, fun _ => ⟨?_, haim⟩,
    hundo, ?_, settle_waits closing_finish⟩
  · exact hindex.trans (item.editAll_index _)
  · rw [Item.finish_prepared, ite_self] at hprepared
    rw [decide_eq_false hprepare, Bool.false_and, Bool.or_false]
    exact hprepared.trans (item.editAll_prepared _)
  · exact htarget.trans (item.editAll_target _)
  · rintro rfl
    simp at hphase

/-- An item is cleaned up where its target is, and has none from then on. -/
theorem effect_cleanup {object : ObjectId} (h : item.target = some object) (s : State Obj) :
    Effect .cleanup item (s.call .cleanup S.who object { item with target := none }).1.1.finish
      ⟨S.who, .cleanup, some object, { item with target := none },
        (s.call .cleanup S.who object { item with target := none }).1.1,
        (s.call .cleanup S.who object { item with target := none }).1.2⟩ where
  active := by decide
  callback := rfl
  index := rfl
  index' := Item.editAll_index _ _
  complete _ := rfl
  prepared := by
    rw [decide_eq_false (by simp), Bool.false_and, Bool.or_false]
    exact Item.editAll_prepared _ _
  error := by simp
  placed := by simp
  aimed := by simp
  undone := by simp
  cleaned _ := ⟨Item.editAll_target _ _, h.symm, rfl⟩
  waits h := by cases h

/-- What serving an item adds to the history, and what becomes of the item. -/
theorem Served.effect {later : Option Error} (hS : Discreet S) (h : Served S phase item s (item', later) t)
    (hd : item.deferred = false) :
    (t.history S.who.transaction = s.history S.who.transaction ∧ Silent phase item item') ∨
      ∃ st, t.history S.who.transaction = s.history S.who.transaction ++ [st] ∧ Effect phase item item' st := by
  have hlook {f : Finding} {t : State Obj} (hf : (S.look item).Yields S.rely s f t) :=
    (Activity.ensures_iff.mp (hS.look item s)).2 f t hf
  generalize hx : (item', later) = x at h
  cases h with
  | late hf hnone hlock =>
    cases hx
    exact Or.inl ⟨hlook hf, .late item⟩
  | refused hf hnone hlock =>
    cases hx
    refine Or.inr ⟨_, by rw [State.history_refuse, hlook hf], ?_⟩
    exact effect_refuse .prepare (isError_absence _ _) hd (by decide) (by decide) (by simp) (by simp) _
  | prepared hf hsome =>
    have hitem := congrArg Prod.fst hx
    refine Or.inr ⟨_, by rw [State.history_call, hlook hf], ?_⟩
    rw [show item' = _ from hitem]
    exact effect_prepare item _ _
  | stranded ha =>
    obtain ⟨rfl, htarget⟩ := history_aim ha
    cases hx
    refine Or.inr ⟨_, State.history_refuse _ _ _ _ _, ?_⟩
    exact effect_refuse .commit rfl hd (by decide) (by decide) (fun _ => target_of_aim htarget) (by simp) _
  | committed ha =>
    obtain ⟨rfl, htarget⟩ := history_aim ha
    have hitem := congrArg Prod.fst hx
    refine Or.inr ⟨_, State.history_call _ _ _ _ _, ?_⟩
    rw [show item' = _ from hitem]
    exact effect_call .commit rfl (by simp) htarget (by simp) _
  | unprepared hp =>
    cases hx
    exact Or.inl ⟨rfl, .unprepared hp⟩
  | kept hp ha =>
    obtain ⟨rfl, htarget⟩ := history_aim ha
    cases hx
    refine Or.inr ⟨_, State.history_refuse _ _ _ _ _, ?_⟩
    exact effect_refuse .undo rfl hd (by decide) (by decide) (fun _ => target_of_aim htarget)
      (fun _ => hp) _
  | undone hp ha =>
    obtain ⟨rfl, htarget⟩ := history_aim ha
    have hitem := congrArg Prod.fst hx
    refine Or.inr ⟨_, State.history_call _ _ _ _ _, ?_⟩
    rw [show item' = _ from hitem]
    exact effect_call .undo rfl (by simp) htarget (fun _ => hp) _
  | untouched htarget =>
    cases hx
    exact Or.inl ⟨rfl, .untouched htarget⟩
  | cleaned htarget =>
    cases hx
    refine Or.inr ⟨_, ?_, effect_cleanup htarget _⟩
    rw [State.history_call, State.history_eq_of_bare _ (State.bare_unlock _ _ _ _)]

/-- An item that is served in preparation without a step could not be had in time. -/
theorem Served.timedOut {out : Item × Option Error} (hS : Discreet S) (h : Served S .prepare item s out t)
    (hsame : t.history S.who.transaction = s.history S.who.transaction) :
    out.1 = item.defer ∧ ∃ f, (S.look item).Yields S.rely s f t ∧ f.entry = none ∧ f.lock = .timedOut := by
  have hlook {f : Finding} {t : State Obj} (hf : (S.look item).Yields S.rely s f t) :=
    (Activity.ensures_iff.mp (hS.look item s)).2 f t hf
  cases h with
  | late hf hnone hlock => exact ⟨rfl, _, hf, hnone, hlock⟩
  | refused hf =>
    rw [State.history_refuse, hlook hf] at hsame
    simp at hsame
  | prepared hf =>
    rw [State.history_call, hlook hf] at hsame
    simp at hsame

end Served

end Set
end Responder
