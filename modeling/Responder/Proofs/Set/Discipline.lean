import Responder.Object.Instrument
import Responder.Proofs.Set.Blame

/-! The discipline of writing in two phases. A history is disciplined if each of its steps was allowed by
    those before it: nothing is committed before everything is prepared, an error ends both, what was
    prepared is then undone in order, and what was found is cleaned up once, last of all. Every history
    of a request that writes is disciplined, and that of a complete one is concluded (`disciplined_of_passes`). -/

namespace Responder

/-- The place of a callback in the order of the phases. -/
def Callback.place : Callback → Nat
  | .get | .next => 0
  | .prepare => 1
  | .commit => 2
  | .undo => 3
  | .cleanup => 4

namespace Set

/-- The item was prepared: its object was called for it, and answered without an error. -/
def Prepared (h : List Step) (index : Nat) : Prop := Occurs h .prepare index Step.passed

/-- The item was committed without an error. -/
def Committed (h : List Step) (index : Nat) : Prop := Occurs h .commit index Step.passed

/-- The item was undone, to the end. -/
def Undone (h : List Step) (index : Nat) : Prop := Occurs h .undo index Step.closed

/-- The item was cleaned up. -/
def Cleaned (h : List Step) (index : Nat) : Prop := Occurs h .cleanup index Step.closed

/-- What the steps of a request with `n` items allow as the next one. -/
structure Allowed (n : Nat) (past : List Step) (st : Step) : Prop where
  index : st.index < n
  /-- The phases follow each other. -/
  place : 1 ≤ st.callback.place ∧ ∀ e ∈ past, e.callback.place ≤ st.callback.place
  /-- Only where an item is prepared can its object be missing, and that is an error. -/
  missing : st.object = none → st.callback = .prepare ∧ st.failed = true
  /-- The object that was called to prepare the item is called for it from then on. -/
  object : st.callback ≠ .prepare → st.object = owner? past st.index
  /-- Nothing is repeated that was over. -/
  again : ¬Occurs past st.callback st.index Step.closed
  early : st.callback = .prepare ∨ st.callback = .commit → ¬Broken past
  commit : st.callback = .commit → ∀ i < n, Prepared past i
  undo : st.callback = .undo → Broken past ∧ Prepared past st.index ∧ ∀ i < st.index, Prepared past i → Undone past i

/-- Each step was allowed by those before it. -/
def Disciplined (n : Nat) (h : List Step) : Prop := ∀ past st rest, h = past ++ st :: rest → Allowed n past st

/-- What has to have happened when a request is complete: after a failure all that was prepared is undone, else
all is committed; and of each item the object that was found has been called to clean up, once. -/
structure Concluded (n : Nat) (h : List Step) : Prop where
  undone : Broken h → ∀ i, Prepared h i → Undone h i
  committed : ¬Broken h → ∀ i < n, Committed h i
  cleaned : ∀ i, (h.countP fun st => st.callback = .cleanup ∧ st.index = i) = if (owner? h i).isSome then 1 else 0

/-- The reason for which an item is deferred, after turns have led from the first moment to this one: either nothing
has failed and the look-up of its object timed out when it was to be prepared, after which nothing was called, or the
last step of the request is its own, in this phase, and left it so. -/
inductive Awaited {Obj : Type} [ManagedObject Obj] (S : Scene Obj) (first m : Moment Obj) (x : Item) : Prop
  | late {before : Moment Obj} {t : State Obj} {f : Finding} (hphase : m.request.phase = .prepare)
      (hclear : ¬Broken (m.past S)) (hbefore : Turns S first before) (hpast : before.past S = m.past S)
      (hlook : (S.look x).Yields S.rely before.state f t) (hnone : f.entry = none) (hlock : f.lock = .timedOut)
  | left {past : List Step} {st : Step} (hpast : m.past S = past ++ [st])
      (hcallback : st.callback = m.request.phase.callback) (hindex : st.index = x.index)
      (hleft : st.after.deferred = true)

section Lemmas
variable {n : Nat} {h : List Step} {st : Step}

theorem disciplined_nil : Disciplined n [] := by
  intro past st rest h
  simp at h

theorem Disciplined.snoc (h₁ : Disciplined n h) (h₂ : Allowed n h st) : Disciplined n (h ++ [st]) := by
  intro past st' rest heq
  rcases List.eq_nil_or_concat rest with rfl | ⟨rest, last, rfl⟩
  · obtain ⟨rfl, hst⟩ := List.append_inj' heq rfl
    cases hst
    exact h₂
  · rw [List.concat_eq_append, ← List.cons_append, ← List.append_assoc] at heq
    obtain ⟨rfl, -⟩ := List.append_inj' heq rfl
    exact h₁ past st' rest rfl

theorem Disciplined.allowed (hd : Disciplined n h) (hst : st ∈ h) : ∃ past, Allowed n past st := by
  obtain ⟨past, rest, rfl⟩ := List.append_of_mem hst
  exact ⟨past, hd past st rest rfl⟩

theorem Disciplined.index_lt (hd : Disciplined n h) {callback : Callback} {index : Nat} {test : Step → Bool}
    (hocc : Occurs h callback index test) : index < n := by
  obtain ⟨st, hst, -, rfl, -⟩ := hocc
  obtain ⟨past, hallowed⟩ := hd.allowed hst
  exact hallowed.index

/-- Where nothing failed, what is over has passed. -/
theorem Disciplined.passed (hd : Disciplined n h) (hb : ¬Broken h) {callback : Callback} {index : Nat}
    (hc : callback = .prepare ∨ callback = .commit) (hocc : Occurs h callback index Step.closed) :
    Occurs h callback index Step.passed := by
  obtain ⟨st, hst, rfl, hi, hover⟩ := hocc
  have hfailed : st.failed = false := by
    rw [← Bool.not_eq_true]
    exact fun hf => hb ⟨st, hst, hc, hf⟩
  refine ⟨st, hst, rfl, hi, ?_⟩
  obtain ⟨past, hallowed⟩ := hd.allowed hst
  cases hobject : st.object with
  | none => exact absurd (hallowed.missing hobject).2 (by simp [hfailed])
  | some id => simp [Step.passed, hobject, hover, hfailed]

end Lemmas

/-! ### The invariant -/

/-- An item is over with the current phase for a reason: it was served, or something had failed before it; when
it was undone, it had been prepared; when it was cleaned up, nothing is left to be called. -/
def Settled (h : List Step) (x : Item) : Phase → Prop
  | .prepare => Occurs h .prepare x.index Step.closed ∨ Broken h
  | .commit => Occurs h .commit x.index Step.closed ∨ Broken h
  | .undo => Prepared h x.index → Undone h x.index
  | .cleanup => x.target = none
  | .start | .process => True

/-- The items of a request that writes, as its history has them. -/
structure Orderly (n : Nat) (r : Request) (h : List Step) : Prop extends Blamed r h where
  indices : r.items.map Item.index = List.range n
  disciplined : Disciplined n h
  place : ∀ st ∈ h, st.callback.place ≤ r.phase.callback.place
  prepared : ∀ x ∈ r.items, x.prepared = true ↔ Prepared h x.index
  target : ∀ x ∈ r.items, ¬Cleaned h x.index → x.target = owner? h x.index
  cleaned : ∀ x ∈ r.items, Cleaned h x.index → x.target = none
  waiting : ∀ x ∈ r.items, x.complete = false → ¬Occurs h r.phase.callback x.index Step.closed
  settled : ∀ x ∈ r.items, x.complete = true → Settled h x r.phase
  commit : r.phase = .commit → ∀ i < n, Prepared h i
  cleanup : r.phase = .cleanup →
    (Broken h → ∀ i, Prepared h i → Undone h i) ∧ (¬Broken h → ∀ i < n, Committed h i)

section Serve
variable {n : Nat} {r : Request} {h : List Step} {done rest : List Item} {item item' : Item} {st : Step}

theorem Orderly.index_lt (o : Orderly n r h) {x : Item} (hx : x ∈ r.items) : x.index < n :=
  index_lt_of_places o.indices hx

theorem Orderly.exists_item (o : Orderly n r h) {i : Nat} (hi : i < n) : ∃ x ∈ r.items, x.index = i :=
  exists_of_places o.indices hi

theorem Orderly.not_cleaned (o : Orderly n r h) (hphase : r.phase ≠ .cleanup) (index : Nat) : ¬Cleaned h index := by
  rintro ⟨st, hst, hc, -⟩
  have hplace := o.place st hst
  rw [hc] at hplace
  cases hr : r.phase <;> simp [hr, Callback.place, Phase.callback] at hplace hphase

/-- What stands before the item that is served has been undone when the item is. -/
theorem Orderly.undone_below (o : Orderly n r h) (hitems : r.items = done ++ item :: rest)
    (hdone : ∀ x ∈ done, x.complete = true) (hphase : r.phase = .undo) :
    ∀ i < item.index, Prepared h i → Undone h i := by
  intro i hi hprepared
  have hmem : item ∈ r.items := hitems ▸ List.mem_append_right _ List.mem_cons_self
  obtain ⟨x, hx, rfl⟩ := o.exists_item (Nat.lt_trans hi (o.index_lt hmem))
  have hxd : x ∈ done := by
    obtain ⟨-, hrest⟩ := sorted_of_places o.indices hitems
    rw [hitems] at hx
    rcases List.mem_append.mp hx with hx | hx
    · exact hx
    · rcases List.mem_cons.mp hx with rfl | hx
      · exact absurd hi (Nat.lt_irrefl _)
      · exact absurd (hrest x hx) (Nat.lt_asymm hi)
  have hsettled := o.settled x hx (hdone x hxd)
  rw [hphase] at hsettled
  exact hsettled hprepared

/-- A step of the current phase is allowed. -/
theorem Orderly.allowed (o : Orderly n r h) (hitems : r.items = done ++ item :: rest)
    (hdone : ∀ x ∈ done, x.complete = true) (hopen : item.complete = false)
    (hclear : r.phase = .prepare ∨ r.phase = .commit → r.hasError = false) (e : Effect r.phase item item' st) :
    Allowed n h st := by
  have hmem : item ∈ r.items := hitems ▸ List.mem_append_right _ List.mem_cons_self
  have hindex : st.index < n := e.index ▸ o.index_lt hmem
  have hplace : ∀ e ∈ h, e.callback.place ≤ st.callback.place := fun x hx => e.callback ▸ o.place x hx
  have hagain : ¬Occurs h st.callback st.index Step.closed := by
    rw [e.callback, e.index]
    exact o.waiting item hmem hopen
  have hbroken (hphase : r.phase = .prepare ∨ r.phase = .commit) : ¬Broken h := by
    rw [← o.error (by rcases hphase with hp | hp <;> simp [hp]) (by rcases hphase with hp | hp <;> simp [hp]),
      hclear hphase]
    simp
  -- What was prepared has an object, and that is the one that is called.
  have hobject (hphase : r.phase = .commit ∨ r.phase = .undo) (hprepared : Prepared h item.index) :
      st.object = owner? h st.index ∧ st.object ≠ none := by
    have howner := isSome_owner? hprepared
    rw [e.index, ← o.target item hmem (o.not_cleaned (by rcases hphase with hp | hp <;> simp [hp]) _)] at *
    obtain ⟨object, hobject⟩ := Option.isSome_iff_exists.mp howner
    rw [(e.aimed hphase).2 object hobject, hobject]
    exact ⟨rfl, by simp⟩
  cases hphase : r.phase with
  | start => exact absurd (by rw [hphase]; rfl) e.active
  | process => exact absurd (by rw [hphase]; rfl) e.active
  | prepare =>
    have hc : st.callback = .prepare := by rw [e.callback, hphase]; rfl
    exact ⟨hindex, ⟨by rw [hc]; decide, hplace⟩, fun hnone => ⟨hc, (e.placed hphase).2 hnone⟩, fun hn => absurd hc hn,
      hagain, fun _ => hbroken (Or.inl hphase), by simp [hc], by simp [hc]⟩
  | commit =>
    have hc : st.callback = .commit := by rw [e.callback, hphase]; rfl
    obtain ⟨howner, hsome⟩ := hobject (Or.inl hphase) (o.commit hphase _ (o.index_lt hmem))
    exact ⟨hindex, ⟨by rw [hc]; decide, hplace⟩, fun hnone => absurd hnone hsome, fun _ => howner, hagain,
      fun _ => hbroken (Or.inr hphase), fun _ => o.commit hphase, by simp [hc]⟩
  | undo =>
    have hc : st.callback = .undo := by rw [e.callback, hphase]; rfl
    have hprepared := (o.prepared item hmem).mp (e.undone hphase)
    obtain ⟨howner, hsome⟩ := hobject (Or.inr hphase) hprepared
    refine ⟨hindex, ⟨by rw [hc]; decide, hplace⟩, fun hnone => absurd hnone hsome, fun _ => howner, hagain,
      by simp [hc], by simp [hc], fun _ => ⟨o.undo hphase, ?_, ?_⟩⟩
    · rw [e.index]
      exact hprepared
    · rw [e.index]
      exact o.undone_below hitems hdone hphase
  | cleanup =>
    have hc : st.callback = .cleanup := by rw [e.callback, hphase]; rfl
    obtain ⟨-, htarget, hsome⟩ := e.cleaned hphase
    rw [hc] at hagain
    refine ⟨hindex, ⟨by rw [hc]; decide, hplace⟩, fun hnone => ?_, fun _ => ?_, hc ▸ hagain, by simp [hc],
      by simp [hc], by simp [hc]⟩
    · rw [hnone] at hsome
      cases hsome
    · rw [e.index] at hagain ⊢
      rw [htarget]
      exact o.target item hmem hagain

/-- A step for another item leaves an item over for the reason that it was. -/
theorem Settled.append {x : Item} (hx : Settled h x r.phase) (hne : st.index ≠ x.index) :
    Settled (h ++ [st]) x r.phase := by
  cases hphase : r.phase <;> rw [hphase] at hx
  · trivial
  · trivial
  · exact hx.imp (fun hocc => hocc.append st) fun hb => hb.append st
  · exact hx.imp (fun hocc => hocc.append st) fun hb => hb.append st
  · intro hp
    exact (hx ((occurs_append_of_ne (Or.inl hne)).mp hp)).append st
  · exact hx

section Own
variable (o : Orderly n r h) (hmem : item ∈ r.items) (e : Effect r.phase item item' st)
include o e

include hmem in
theorem Orderly.prepared_step : item'.prepared = true ↔ Prepared (h ++ [st]) item'.index := by
  rw [e.prepared, Prepared, occurs_append, e.callback, e.index, e.index', callback_eq_prepare, Bool.or_eq_true,
    o.prepared item hmem]
  simp [Prepared]

include hmem in
theorem Orderly.target_step (hclean : ¬Cleaned (h ++ [st]) item'.index) :
    item'.target = owner? (h ++ [st]) item'.index := by
  have hphase : r.phase ≠ .cleanup := by
    intro hphase
    have hc : st.callback = .cleanup := by rw [e.callback, hphase]; rfl
    refine hclean (occurs_append.mpr (Or.inr ⟨hc, e.index.trans e.index'.symm, ?_⟩))
    simp [Step.closed, hc]
  have htarget := o.target item hmem (o.not_cleaned hphase _)
  by_cases hprepare : r.phase = .prepare
  · have hc : st.callback = .prepare := by rw [e.callback, hprepare]; rfl
    rw [owner?_append, owner?_singleton, if_pos ⟨hc, e.index.trans e.index'.symm⟩, e.index', ← htarget]
    exact (e.placed hprepare).1
  · have hlater : r.phase = .commit ∨ r.phase = .undo := by
      cases hr : r.phase <;> simp [hr] at hphase hprepare ⊢ <;> exact e.active (by rw [hr]; rfl)
    rw [owner?_append_of_ne (Or.inr fun hc => hprepare (callback_eq_prepare.mp (e.callback.symm.trans hc))), e.index',
      ← htarget]
    exact (e.aimed hlater).1

theorem Orderly.cleaned_step (hclean : Cleaned (h ++ [st]) item'.index) : item'.target = none := by
  by_cases hphase : r.phase = .cleanup
  · exact (e.cleaned hphase).1
  · rcases occurs_append.mp hclean with hclean | ⟨hc, -⟩
    · exact absurd hclean (o.not_cleaned hphase _)
    · exact absurd (callback_eq_cleanup.mp (e.callback.symm.trans hc)) hphase

include hmem in
theorem Orderly.waiting_step (htorn : st.torn = false) (hopen : item.complete = false)
    (hc : item'.complete = false) : ¬Occurs (h ++ [st]) r.phase.callback item'.index Step.closed := by
  intro hocc
  rcases occurs_append.mp hocc with hocc | ⟨-, -, hover⟩
  · rw [e.index'] at hocc
    exact o.waiting item hmem hopen hocc
  · rw [e.complete htorn, hover] at hc
    cases hc

omit o in
theorem Effect.settled (htorn : st.torn = false) (hc : item'.complete = true) :
    Settled (h ++ [st]) item' r.phase := by
  have hover : st.closed = true := (e.complete htorn).symm.trans hc
  have hocc : Occurs (h ++ [st]) r.phase.callback item'.index Step.closed :=
    occurs_append.mpr (Or.inr ⟨e.callback, e.index.trans e.index'.symm, hover⟩)
  cases hphase : r.phase <;> rw [hphase] at hocc
  · trivial
  · trivial
  · exact Or.inl hocc
  · exact Or.inl hocc
  · exact fun _ => hocc
  · exact (e.cleaned hphase).1

end Own

/-- A step of the current phase keeps the items in order. -/
theorem Orderly.step (o : Orderly n r h) (hitems : r.items = done ++ item :: rest)
    (hdone : ∀ x ∈ done, x.complete = true) (hopen : item.complete = false)
    (hclear : r.phase = .prepare ∨ r.phase = .commit → r.hasError = false) (e : Effect r.phase item item' st)
    (htorn : st.torn = false) : Orderly n { r with items := done ++ item' :: rest } (h ++ [st]) := by
  have hmem : item ∈ r.items := hitems ▸ List.mem_append_right _ List.mem_cons_self
  have hother {x : Item} (hx : x ∈ done ++ item' :: rest) : x = item' ∨ x ∈ r.items ∧ st.index ≠ x.index :=
    (mem_replace_of_places o.indices hitems hx).imp id fun ⟨hx, hne⟩ => ⟨hx, fun heq => hne (heq ▸ e.index)⟩
  refine ⟨o.toBlamed.step hitems hclear e, ?_, o.disciplined.snoc (o.allowed hitems hdone hopen hclear e), ?_, ?_, ?_,
    ?_, ?_, ?_, ?_, ?_⟩
  · rw [← o.indices, hitems]
    simp [e.index']
  · intro x hx
    rcases List.mem_append.mp hx with hx | hx
    · exact o.place x hx
    · exact Nat.le_of_eq (by rw [List.mem_singleton.mp hx, e.callback])
  · intro x hx
    rcases hother hx with rfl | ⟨hx, hne⟩
    · exact o.prepared_step hmem e
    · exact (o.prepared x hx).trans (occurs_append_of_ne (Or.inl hne)).symm
  · intro x hx hclean
    rcases hother hx with rfl | ⟨hx, hne⟩
    · exact o.target_step hmem e hclean
    · rw [owner?_append_of_ne (Or.inl hne)]
      exact o.target x hx fun hc => hclean (hc.append st)
  · intro x hx hclean
    rcases hother hx with rfl | ⟨hx, hne⟩
    · exact o.cleaned_step e hclean
    · exact o.cleaned x hx ((occurs_append_of_ne (Or.inl hne)).mp hclean)
  · intro x hx hc hocc
    rcases hother hx with rfl | ⟨hx, hne⟩
    · exact o.waiting_step hmem e htorn hopen hc hocc
    · exact o.waiting x hx hc ((occurs_append_of_ne (Or.inl hne)).mp hocc)
  · intro x hx hc
    rcases hother hx with rfl | ⟨hx, hne⟩
    · exact e.settled htorn hc
    · exact (o.settled x hx hc).append hne
  · exact fun hphase i hi => (o.commit hphase i hi).append st
  · intro hphase
    have hc : st.callback = .cleanup := by rw [e.callback, callback_eq_cleanup]; exact hphase
    have hb : Broken (h ++ [st]) ↔ Broken h := by simp [broken_append, hc]
    obtain ⟨hundone, hcommitted⟩ := o.cleanup hphase
    rw [hb]
    refine ⟨fun hbroken i hp => (hundone hbroken i ?_).append st, fun hnot i hi => (hcommitted hnot i hi).append st⟩
    exact (occurs_append_of_ne (Or.inr (by simp [hc]))).mp hp

/-- What changes no more of the items than whether they are over keeps them in order. -/
theorem Orderly.relabel (o : Orderly n r h) {r' : Request} (hphase : r'.phase = r.phase)
    (hindices : r'.items.map Item.index = r.items.map Item.index) (herror : r'.hasError = r.hasError)
    (hsame : ∀ y ∈ r'.items, ∃ x ∈ r.items, y.index = x.index ∧ y.prepared = x.prepared ∧ y.target = x.target ∧
      (y.complete = false → x.complete = false) ∧ (y.complete = true → Settled h y r.phase)) : Orderly n r' h where
  toBlamed := o.toBlamed.relabel hphase herror
  indices := hindices.trans o.indices
  disciplined := o.disciplined
  place := hphase ▸ o.place
  prepared y hy := by
    obtain ⟨x, hx, hi, hp, -⟩ := hsame y hy
    rw [hp, hi]
    exact o.prepared x hx
  target y hy hclean := by
    obtain ⟨x, hx, hi, -, ht, -⟩ := hsame y hy
    rw [hi] at hclean ⊢
    exact ht.trans (o.target x hx hclean)
  cleaned y hy hclean := by
    obtain ⟨x, hx, hi, -, ht, -⟩ := hsame y hy
    exact ht.trans (o.cleaned x hx (hi ▸ hclean))
  waiting y hy hc := by
    obtain ⟨x, hx, hi, -, -, hopen, -⟩ := hsame y hy
    rw [hphase, hi]
    exact o.waiting x hx (hopen hc)
  settled y hy hc := by
    obtain ⟨x, -, -, -, -, -, hsettled⟩ := hsame y hy
    rw [hphase]
    exact hsettled hc
  commit := hphase ▸ o.commit
  cleanup := hphase ▸ o.cleanup

theorem Orderly.silent (o : Orderly n r h) (hitems : r.items = done ++ item :: rest) (hopen : item.complete = false)
    (hs : Silent r.phase item item') : Orderly n { r with items := done ++ item' :: rest } h := by
  have hmem : item ∈ r.items := hitems ▸ List.mem_append_right _ List.mem_cons_self
  have hkept : item'.index = item.index ∧ item'.prepared = item.prepared ∧ item'.target = item.target := by
    generalize r.phase = phase at hs
    cases hs <;> exact ⟨rfl, rfl, rfl⟩
  obtain ⟨hi, hp, ht⟩ := hkept
  refine o.relabel rfl ?_ (hasError_silent hitems hs) fun y hy => ?_
  · rw [hitems]
    simp [hi]
  · rcases mem_replace_of_places o.indices hitems hy with rfl | ⟨hy, -⟩
    · refine ⟨item, hmem, hi, hp, ht, fun _ => hopen, fun hc => ?_⟩
      generalize r.phase = phase at hs
      cases hs with
      | late => cases hopen.symm.trans hc
      | unprepared hn =>
        intro hprepared
        rw [hi, ← o.prepared item hmem, hn] at hprepared
        cases hprepared
      | untouched hn => exact hn
    · exact ⟨y, hy, rfl, rfl, rfl, id, o.settled y hy⟩

theorem Orderly.giveUp (o : Orderly n r h) (hgive : GivesUp r) : Orderly n r.finishAll h := by
  have hb : Broken h := by
    rw [← o.error (by rcases hgive.1 with hp | hp <;> simp [hp]) (by rcases hgive.1 with hp | hp <;> simp [hp])]
    exact hgive.2
  refine o.relabel rfl ?_ (hasError_finishAll r) fun y hy => ?_
  · rw [Request.finishAll, List.map_map]
    refine List.map_congr_left fun x _ => ?_
    dsimp only [Function.comp_apply]
    split <;> rfl
  · obtain ⟨x, hx, rfl⟩ := List.mem_map.mp hy
    refine ⟨x, hx, ?_⟩
    have hsettled (y : Item) : Settled h y r.phase := by
      rcases hgive.1 with hp | hp <;> rw [hp] <;> exact Or.inr hb
    split
    · exact ⟨rfl, rfl, rfl, id, fun _ => hsettled _⟩
    · exact ⟨rfl, rfl, rfl, by simp, fun _ => hsettled _⟩

theorem Orderly.retry (o : Orderly n r h) : Orderly n r.retry h := by
  refine o.relabel rfl ?_ (hasError_retry r) fun y hy => ?_
  · simp [Request.retry, Function.comp_def]
  · obtain ⟨x, hx, rfl⟩ := List.mem_map.mp hy
    exact ⟨x, hx, rfl, rfl, rfl, id, o.settled x hx⟩

/-- A later phase begins with its items in order. -/
theorem Orderly.enter (o : Orderly n r h) {phase : Phase} (hlt : r.phase.callback.place < phase.callback.place)
    (hblamed : Blamed { r with phase, items := r.items.map Item.restart } h)
    (hcommit : phase = .commit → ∀ i < n, Prepared h i)
    (hcleanup : phase = .cleanup → (Broken h → ∀ i, Prepared h i → Undone h i) ∧ (¬Broken h → ∀ i < n, Committed h i)) :
    Orderly n { r with phase, items := r.items.map Item.restart } h where
  toBlamed := hblamed
  indices := by
    rw [← o.indices, List.map_map]
    rfl
  disciplined := o.disciplined
  place st hst := Nat.le_of_lt (Nat.lt_of_le_of_lt (o.place st hst) hlt)
  prepared y hy := by
    obtain ⟨x, hx, rfl⟩ := List.mem_map.mp hy
    exact o.prepared x hx
  target y hy hclean := by
    obtain ⟨x, hx, rfl⟩ := List.mem_map.mp hy
    exact o.target x hx hclean
  cleaned y hy hclean := by
    obtain ⟨x, hx, rfl⟩ := List.mem_map.mp hy
    exact o.cleaned x hx hclean
  waiting y hy _ := by
    rintro ⟨st, hst, hc, -⟩
    have hplace := o.place st hst
    rw [hc] at hplace
    exact absurd hlt (Nat.not_lt_of_le hplace)
  settled y hy hc := by
    obtain ⟨x, hx, rfl⟩ := List.mem_map.mp hy
    cases hc
  commit := hcommit
  cleanup := hcleanup

/-- Where a phase that may fail is over without an error, everything has passed in it. -/
theorem Orderly.all_passed (o : Orderly n r h) (hphase : r.phase = .prepare ∨ r.phase = .commit)
    (herror : r.hasError = false) (hall : ∀ x ∈ r.items, x.complete = true) :
    ¬Broken h ∧ ∀ i < n, Occurs h r.phase.callback i Step.passed := by
  have hb : ¬Broken h := by
    rw [← o.error (by rcases hphase with hp | hp <;> simp [hp]) (by rcases hphase with hp | hp <;> simp [hp]), herror]
    simp
  refine ⟨hb, fun i hi => ?_⟩
  obtain ⟨x, hx, rfl⟩ := o.exists_item hi
  have hsettled := o.settled x hx (hall x hx)
  rcases hphase with hp | hp <;> rw [hp] at hsettled ⊢
  · exact o.disciplined.passed hb (Or.inl rfl) (hsettled.resolve_right hb)
  · exact o.disciplined.passed hb (Or.inr rfl) (hsettled.resolve_right hb)

variable {Obj : Type} {S : Scene Obj}

theorem Orderly.advance {r' : Request} (o : Orderly n r h) (w : Writes S r)
    (hover : r.phase = .start ∨ r.isPhaseComplete = true) (hr : r.advance? = some r') : Orderly n r' h := by
  have hblamed := o.toBlamed.advance w hr
  obtain ⟨phase, hnext, rfl⟩ := advance?_eq hr
  have hall := w.all_complete hover
  cases w.onward hnext with
  | begin hphase => exact o.enter (by rw [hphase]; decide) hblamed (by simp) (by simp)
  | commit hphase hclear =>
    obtain ⟨-, hpassed⟩ := o.all_passed (Or.inl hphase) hclear (hall (by simp [hphase]))
    rw [hphase] at hpassed
    exact o.enter (by rw [hphase]; decide) hblamed (fun _ => hpassed) (by simp)
  | rollBack hphase | takeBack hphase => exact o.enter (by rw [hphase]; decide) hblamed (by simp) (by simp)
  | drop hphase hfailed hnone =>
    have hb : Broken h := (o.error (by simp [hphase]) (by simp [hphase])).mp hfailed
    refine o.enter (by rw [hphase]; decide) hblamed (by simp) fun _ => ⟨fun _ i hp => ?_, absurd hb⟩
    obtain ⟨x, hx, rfl⟩ := o.exists_item (o.disciplined.index_lt hp)
    cases (hnone x hx).symm.trans ((o.prepared x hx).mpr hp)
  | conclude hphase hclear =>
    obtain ⟨hb, hpassed⟩ := o.all_passed (Or.inr hphase) hclear (hall (by simp [hphase]))
    rw [hphase] at hpassed
    exact o.enter (by rw [hphase]; decide) hblamed (by simp) fun _ => ⟨fun h => absurd h hb, fun _ => hpassed⟩
  | wind hphase =>
    refine o.enter (by rw [hphase]; decide) hblamed (by simp) fun _ => ⟨fun _ i hp => ?_, absurd (o.undo hphase)⟩
    obtain ⟨x, hx, rfl⟩ := o.exists_item (o.disciplined.index_lt hp)
    have hsettled := o.settled x hx (hall (by simp [hphase]) x hx)
    rw [hphase] at hsettled
    exact hsettled hp

end Serve

/-! ### What every turn keeps -/

section Turns
variable {Obj : Type} [ManagedObject Obj] {S : Scene Obj} {n : Nat} {m m' : Moment Obj}

/-- A turn keeps the items in order, as long as no step leaves an item over and still to be called. -/
theorem Turn.orderly (hS : Discreet S) (hturn : Turn S m m') (w : Writes S m.request)
    (htorn : ∀ st ∈ m'.past S, st.torn = false) (o : Orderly n m.request (m.past S)) :
    Orderly n m'.request (m'.past S) := by
  unfold Moment.past at htorn o ⊢
  cases hturn with
  | @serve r error later s t done rest item item' hpass hopen hclear hserved =>
    have hrested := hpass.rested item (hpass.items ▸ List.mem_append_right _ List.mem_cons_self)
    dsimp only at htorn o ⊢
    rcases hserved.effect hS hrested with ⟨hsame, hsilent⟩ | ⟨st, hst, heffect⟩
    · rw [hsame]
      exact o.silent hpass.items hopen hsilent
    · rw [hst] at htorn ⊢
      exact o.step hpass.items hpass.behind hopen hclear heffect
        (htorn st (List.mem_append_right _ (List.mem_singleton_self _)))
  | wait hphase hwait =>
    dsimp only at o ⊢
    rw [(Activity.ensures_iff.mp (hS.look _ _)).1 _ hwait]
    exact o
  | giveUp hgive => exact o.giveUp hgive
  | advance hover hr => exact o.advance w hover hr
  | retry hr hrely =>
    dsimp only at o ⊢
    rw [hS _ _ hrely]
    exact o.retry

theorem Turns.orderly (hS : Discreet S) (hturns : Turns S m m') (w : Writes S m.request)
    (o : Orderly n m.request (m.past S)) (htorn : ∀ st ∈ m'.past S, st.torn = false) :
    Orderly n m'.request (m'.past S) := by
  induction hturns with
  | refl => exact o
  | tail hbefore hturn ih =>
    refine hturn.orderly hS (Turns.writes hbefore w) htorn (ih fun st hst => htorn st ?_)
    rcases hturn.past hS with hpast | ⟨st', hpast⟩
    · rw [hpast]
      exact hst
    · rw [hpast]
      exact List.mem_append_left _ hst

/-- As long as the phase goes on and no step is added, the reason stays one. -/
theorem Awaited.congr {first : Moment Obj} {x : Item} (h : Awaited S first m x)
    (hphase : m'.request.phase = m.request.phase) (hpast : m'.past S = m.past S) : Awaited S first m' x := by
  cases h with
  | late hprepare hclear hbefore hsame hlook hnone hlock =>
    exact .late (hphase.trans hprepare) (hpast ▸ hclear) hbefore (hsame.trans hpast.symm) hlook hnone hlock
  | left hlast hcallback hindex hleft =>
    exact .left (hpast.trans hlast) (hcallback.trans (hphase ▸ rfl)) hindex hleft

/-- An item that serving it leaves deferred is so for a reason. -/
theorem Served.awaited {first : Moment Obj} {r r' : Request} {error error' later : Option Error} {s t : State Obj}
    {item item' : Item} (hS : Discreet S) (hserved : Served S r.phase item s (item', later) t)
    (hrested : item.deferred = false) (hclear : r.phase = .prepare → ¬Broken (s.history S.who.transaction))
    (hbefore : Turns S first ⟨r, error, s⟩) (hphase : r'.phase = r.phase) (hdeferred : item'.deferred = true) :
    Awaited S first ⟨r', error', t⟩ item' := by
  rcases hserved.effect hS hrested with ⟨hsame, hsilent⟩ | ⟨st, hst, heffect⟩
  · by_cases hp : r.phase = .prepare
    · rw [hp] at hserved
      obtain ⟨hitem, f, hlook, hnone, hlock⟩ := hserved.timedOut hS hsame
      obtain rfl : item' = item.defer := hitem
      exact .late (hphase.trans hp) (fun hb => hclear hp (hsame ▸ hb)) hbefore hsame.symm hlook hnone hlock
    · generalize r.phase = phase at hsilent hp
      cases hsilent with
      | late => exact absurd rfl hp
      | unprepared | untouched => cases hdeferred
  · exact .left hst (heffect.callback.trans (hphase ▸ rfl)) (heffect.index.trans heffect.index'.symm)
      (heffect.waits hdeferred)

/-- Everything that a moment leaves deferred is so for a reason. -/
def Accountable (S : Scene Obj) (first m : Moment Obj) : Prop :=
  ∀ x ∈ m.request.items, x.deferred = true → Awaited S first m x

/-- What a turn leaves deferred is so for a reason. -/
theorem Turn.accountable {first : Moment Obj} (hS : Discreet S) (hbefore : Turns S first m) (hturn : Turn S m m')
    (hblamed : Blamed m.request (m.past S)) (h : Accountable S first m) : Accountable S first m' := by
  intro x hx hdeferred
  cases hturn with
  | @serve r error later s t done rest item item' hpass hopen hclear hserved =>
    -- Whatever else there is was not deferred when the pass began.
    have hother (hx : x ∈ r.items) : False := by cases hdeferred.symm.trans (hpass.rested x hx)
    rw [hpass.items] at hother
    rcases List.mem_append.mp hx with hx | hx
    · exact (hother (List.mem_append_left _ hx)).elim
    rcases List.mem_cons.mp hx with rfl | hx
    · refine hserved.awaited hS (hpass.rested item (hpass.items ▸ List.mem_append_right _ List.mem_cons_self))
        (fun hp hb => ?_) hbefore rfl hdeferred
      cases (hclear (Or.inl hp)).symm.trans ((hblamed.error (by simp [hp]) (by simp [hp])).mpr hb)
    · exact (hother (List.mem_append_right _ (List.mem_cons_of_mem _ hx))).elim
  | wait hphase hwait => exact (h x hx hdeferred).congr rfl ((Activity.ensures_iff.mp (hS.look _ _)).1 _ hwait)
  | giveUp =>
    obtain ⟨y, hy, rfl⟩ := List.mem_map.mp hx
    split at hdeferred
    · next hc =>
      rw [if_pos hc]
      exact (h y hy hdeferred).congr rfl rfl
    · cases hdeferred
  | advance hover hr =>
    obtain ⟨phase, -, rfl⟩ := advance?_eq hr
    obtain ⟨y, -, rfl⟩ := List.mem_map.mp hx
    cases hdeferred
  | retry hr hrely =>
    obtain ⟨y, -, rfl⟩ := List.mem_map.mp hx
    cases hdeferred

theorem Turns.accountable (hS : Discreet S) (hturns : Turns S m m') (w : Writes S m.request)
    (hblamed : Blamed m.request (m.past S)) (h : Accountable S m m) : Accountable S m m' := by
  have hall : Blamed m'.request (m'.past S) ∧ Accountable S m m' := by
    induction hturns with
    | refl => exact ⟨hblamed, h⟩
    | tail hbefore hturn ih =>
      exact ⟨hturn.blamed hS (Turns.writes hbefore w) ih.1, hturn.accountable hS hbefore ih.1 ih.2⟩
  exact hall.2

end Turns

/-! ### Requests -/

section Requests
variable {Obj : Type} [ManagedObject Obj] {n : Nat} {r : Request} {h : List Step}

theorem rested_start (pdu : Pdu) (hkind : pdu.kind = .set) (who : Requester) (maxSize : Nat) (created : Instant) :
    ∀ x ∈ (Request.start who pdu maxSize created).items, x.deferred = false := by
  intro x hx
  obtain ⟨_, _, rfl⟩ := exists_of_mem_start (not_bulk_of_set hkind) hx
  rfl

theorem orderly_start {pdu : Pdu} (hkind : pdu.kind = .set) (who : Requester) (maxSize : Nat) (created : Instant) :
    Orderly pdu.bindings.length (.start who pdu maxSize created) [] := by
  have hblank {x : Item} (hx : x ∈ (Request.start who pdu maxSize created).items) :
      x.prepared = false ∧ x.target = none ∧ x.complete = false := by
    obtain ⟨_, _, rfl⟩ := exists_of_mem_start (not_bulk_of_set hkind) hx
    exact ⟨rfl, rfl, rfl⟩
  refine ⟨blamed_start pdu who maxSize created, indices_start (not_bulk_of_set hkind), disciplined_nil, by simp,
    fun x hx => ?_, fun x hx _ => (hblank hx).2.1, fun x _ hc => ?_, fun x hx _ => ?_, fun x hx hc => ?_,
    by simp [Request.start], by simp [Request.start]⟩
  · simp [(hblank hx).1, Prepared]
  · exact absurd hc not_occurs_nil
  · exact not_occurs_nil
  · rw [(hblank hx).2.2] at hc
    cases hc

theorem Disciplined.countP_cleanup (hd : Disciplined n h) (i : Nat) (hclean : Cleaned h i) :
    (h.countP fun st => st.callback = .cleanup ∧ st.index = i) = 1 := by
  obtain ⟨st, hst, hc, hi, hover⟩ := hclean
  obtain ⟨past, rest, rfl⟩ := List.append_of_mem hst
  have hbefore : past.countP (fun st => st.callback = .cleanup ∧ st.index = i) = 0 := by
    rw [List.countP_eq_zero]
    intro x hx
    have hagain := (hd past st rest rfl).again
    rw [hc, hi] at hagain
    simp only [decide_eq_true_eq]
    rintro ⟨hxc, hxi⟩
    exact hagain ⟨x, hx, hxc, hxi, by simp [Step.closed, hxc]⟩
  have hafter : rest.countP (fun st => st.callback = .cleanup ∧ st.index = i) = 0 := by
    rw [List.countP_eq_zero]
    intro x hx
    obtain ⟨rest₁, rest₂, rfl⟩ := List.append_of_mem hx
    simp only [decide_eq_true_eq]
    rintro ⟨hxc, hxi⟩
    have hagain := (hd (past ++ st :: rest₁) x rest₂ (by simp)).again
    rw [hxc, hxi] at hagain
    exact hagain ⟨st, by simp, hc, hi, hover⟩
  rw [List.countP_append, List.countP_cons, hbefore, hafter]
  simp [hc, hi]

theorem Disciplined.owner_of_cleaned (hd : Disciplined n h) {i : Nat} (hclean : Cleaned h i) :
    (owner? h i).isSome = true := by
  obtain ⟨st, hst, hc, rfl, -⟩ := hclean
  obtain ⟨past, rest, rfl⟩ := List.append_of_mem hst
  have hallowed := hd past st rest rfl
  have hsome : (owner? past st.index).isSome = true := by
    rw [← hallowed.object (by simp [hc]), Option.isSome_iff_ne_none]
    intro hnone
    have hprepare := (hallowed.missing hnone).1
    rw [hc] at hprepare
    cases hprepare
  rw [owner?_append, Option.isSome_or, hsome, Bool.or_true]

/-- In a request that is complete, an item is cleaned up just if its object was found. -/
theorem Orderly.cleaned_iff (o : Orderly n r h) (hphase : r.phase = .cleanup)
    (hall : ∀ x ∈ r.items, x.complete = true) (i : Nat) : Cleaned h i ↔ (owner? h i).isSome = true := by
  refine ⟨o.disciplined.owner_of_cleaned, fun hsome => Classical.byContradiction fun hclean => ?_⟩
  obtain ⟨st, hst, -, rfl⟩ := exists_of_owner? hsome
  obtain ⟨past, hallowed⟩ := o.disciplined.allowed hst
  obtain ⟨x, hx, hi⟩ := o.exists_item hallowed.index
  have hsettled := o.settled x hx (hall x hx)
  rw [hphase] at hsettled
  have htarget := o.target x hx (hi ▸ hclean)
  rw [show x.target = none from hsettled, hi] at htarget
  rw [← htarget] at hsome
  cases hsome

theorem Orderly.concluded (o : Orderly n r h) (hphase : r.phase = .cleanup)
    (hall : ∀ x ∈ r.items, x.complete = true) : Concluded n h := by
  obtain ⟨hundone, hcommitted⟩ := o.cleanup hphase
  refine ⟨hundone, hcommitted, fun i => ?_⟩
  split
  · next hsome => exact o.disciplined.countP_cleanup i ((o.cleaned_iff hphase hall i).mpr hsome)
  · next hnone =>
    rw [List.countP_eq_zero]
    intro st hst
    rw [decide_eq_true_eq]
    rintro ⟨hc, hi⟩
    exact hnone ((o.cleaned_iff hphase hall i).mp ⟨st, hst, hc, hi, by simp [Step.closed, hc]⟩)

/-- Two-phase writing: however often a request is taken up, whatever its objects answer and whatever the others do
meanwhile, as long as they leave its history alone and no object leaves an item over and still to be called, the
steps of the request are disciplined. Each pass goes on until the request is complete or an item is deferred, because
the look-up of its object timed out before anything failed or because the last call was for it and left it so. Once
the request is complete, the steps are concluded: so they are after every pass that leaves nothing deferred. -/
theorem disciplined_of_passes {S : Scene Obj} (pdu : Pdu) {maxSize : Nat} {created : Instant} {s : State Obj}
    {q : Progress (State Obj) (Request × Option Error)} (hkind : pdu.kind = .set) (hS : Discreet S)
    (hfresh : s.history S.who.transaction = []) (hq : Passes S (.start S.who pdu maxSize created) s q)
    (htorn : ∀ st ∈ q.state.history S.who.transaction, st.torn = false) :
    Disciplined pdu.bindings.length (q.state.history S.who.transaction) ∧
      ∀ r error t, q = .done (r, error) t →
        (r.isComplete = true ∨ ∃ x ∈ r.items, x.deferred = true ∧
          Awaited S ⟨.start S.who pdu maxSize created, none, s⟩ ⟨r, error, t⟩ x) ∧
        (r.isComplete = true → Concluded pdu.bindings.length (t.history S.who.transaction)) := by
  have w := writes_start (S := S) hkind maxSize created
  have o := orderly_start hkind S.who maxSize created
  rw [← hfresh] at o
  constructor
  · obtain ⟨r, error, hturns⟩ := hq.reaches w rfl
    exact (Turns.orderly hS hturns w o htorn).disciplined
  · rintro r error t rfl
    have hdriven : Driven S _ (r, error) t := hq.ensures w rfl
    constructor
    · refine hdriven.closed.imp id fun ⟨x, hx, hdeferred⟩ => ⟨x, hx, hdeferred, ?_⟩
      refine Turns.accountable hS hdriven.turns w o.toBlamed (fun y hy hd => ?_) x hx hdeferred
      cases hd.symm.trans (rested_start pdu hkind S.who maxSize created y hy)
    · intro hc
      have o := Turns.orderly hS hdriven.turns w o htorn
      rw [(Turns.writes hdriven.turns w).isComplete, Bool.and_eq_true, List.all_eq_true] at hc
      exact o.concluded (by simpa using hc.1) hc.2

/-- Two probes under roots of their own: one asks to be called again when it is prepared, the other one has a fault
when it is committed. -/
def probes : State Instrument where
  objects id := .scripted
    { region := .subtree ⟨[if id.number = 0 then 1 else 2]⟩
      values := .empty
      script := fun callback =>
        if id.number = 0 ∧ callback = .prepare then [{ edits := [.defer] }]
        else if id.number = 1 ∧ callback = .commit then [{ fault := some ⟨none, "disk full"⟩ }]
        else [] }
  registries := [{ entries := [⟨.subtree ⟨[1]⟩, ⟨0⟩⟩, ⟨.subtree ⟨[2]⟩, ⟨1⟩⟩] }]
  outstanding := ⟨.seconds 300, []⟩

/-- A request that writes a variable of each probe. -/
def probing : Pdu where
  kind := .set
  requestId := 1
  errorStatus := 0
  errorIndex := 0
  bindings := [⟨⟨[1, 0]⟩, .integer 1⟩, ⟨⟨[2, 0]⟩, .integer 2⟩]

/-- The probes among others that leave the history of the request alone. -/
def probed : Scene Instrument := ⟨{ lockTimeout := .seconds 5 }, 0, writer, fun s t => t.history ⟨0⟩ = s.history ⟨0⟩⟩

/-- The request that writes to the probes is complete after it is taken up once; its commit has failed. -/
theorem disciplined_of_failing_commit : ∃ r error t,
    Passes probed (.start writer probing 484 ⟨0⟩) probes (.done (r, error) t) ∧ r.isComplete = true ∧
      Broken (t.history ⟨0⟩) ∧ Disciplined 2 (t.history ⟨0⟩) ∧ Concluded 2 (t.history ⟨0⟩) := by
  have hrun : ((run probed.policy 0 (.start writer probing 484 ⟨0⟩) probes).result?.bind fun x =>
      if x.1.2 = none ∧ x.1.1.isComplete = false then (run probed.policy 0 x.1.1.retry x.2).result? else none).any
        (fun y => y.1.1.isComplete && (y.2.history ⟨0⟩).all (fun st => !st.torn) &&
          (y.2.history ⟨0⟩).any fun st => decide (st.callback = .commit) && st.failed) = true := by
    decide +kernel
  rw [Option.any_eq_true] at hrun
  obtain ⟨⟨⟨r, error⟩, t⟩, hrun, htest⟩ := hrun
  obtain ⟨⟨⟨r₁, error₁⟩, t₁⟩, hfirst, hsecond⟩ := Option.bind_eq_some_iff.mp hrun
  rw [Option.ite_none_right_eq_some] at hsecond
  obtain ⟨⟨rfl, hopen⟩, hsecond⟩ := hsecond
  simp only [Bool.and_eq_true, List.all_eq_true, List.any_eq_true, Bool.not_eq_true', decide_eq_true_eq] at htest
  obtain ⟨⟨hcomplete, htorn⟩, st, hst, hcommit, hfailed⟩ := htest
  have hq : Passes probed (.start writer probing 484 ⟨0⟩) probes (.done (r, error) t) := by
    have hdone : Passes probed (.start writer probing 484 ⟨0⟩) probes (.done (r₁, none) t₁) :=
      Progress.eq_done_of_result? hfirst ▸ .first
    exact Progress.eq_done_of_result? hsecond ▸ .again hdone hopen rfl
  have hall := disciplined_of_passes probing rfl (fun _ _ h => h) rfl hq htorn
  exact ⟨r, error, t, hq, hcomplete, ⟨st, hst, Or.inr hcommit, hfailed⟩, hall.1, (hall.2 r error t rfl).2 hcomplete⟩

end Requests

end Set
end Responder
