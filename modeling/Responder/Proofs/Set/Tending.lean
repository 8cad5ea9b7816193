import Responder.Proofs.Pursuit
import Responder.Proofs.Set.Discipline

/-! A request that writes is tended to the end, also if an error is going to be passed on. Whatever its objects do to
    its items, every turn keeps what the history says of them (`Tended`). So a pass that ends in an error has cleaned
    up, once each, all items whose objects were found, and if something failed in the first two phases it has taken
    back all that was prepared, unless it broke off in the midst of undoing (`Driven.restored`). A pass among others
    that leave its history alone is such a sequence of turns, so requests are tended to from pass to pass
    (`upholds_attended`). -/

namespace Responder.Set

variable {Obj : Type} [ManagedObject Obj] {S : Scene Obj}

/-! ### What is passed on -/

section Told
variable {phase : Phase} {item item' : Item} {later : Option Error} {s t : State Obj}

omit [ManagedObject Obj] in
theorem told_settle {p : Policy} {status : Status} (hs : status.isError = true) {close : Item → Item}
    {called : Item × Except Fault Bool} (hlater : (settle p status close called).2.isSome = true) :
    (settle p status close called).1.hasError = true ∧ (settle p status close called).1.deferred = false := by
  obtain ⟨after, fault | _⟩ := called
  · exact ⟨hasError_report p after hs fault, rfl⟩
  · cases hlater

theorem Served.active {x : Item × Option Error} (h : Served S phase item s x t) :
    phase = .prepare ∨ phase = .commit ∨ phase = .undo ∨ phase = .cleanup := by
  cases h <;> simp

/-- An error that is passed on is that of the item, except in the last phase, and the item is not deferred with it. -/
theorem Served.told (h : Served S phase item s (item', later) t) :
    (later.isSome = true → (item'.hasError = true ∨ phase = .cleanup) ∧ item'.deferred = false) ∧
      (phase = .cleanup → item'.deferred = false) := by
  generalize hx : (item', later) = x at h
  have hsettle {status : Status} (hs : status.isError = true) {close : Item → Item} {called : Item × Except Fault Bool}
      (heq : (item', later) = settle S.policy status close called) (hlater : later.isSome = true) :
      (item'.hasError = true ∨ phase = .cleanup) ∧ item'.deferred = false := by
    obtain ⟨hitem, rfl⟩ := Prod.mk.inj heq
    obtain ⟨herror, hdeferred⟩ := told_settle hs hlater
    rw [hitem]
    exact ⟨Or.inl herror, hdeferred⟩
  cases h with
  | late | refused | stranded | unprepared | kept | untouched =>
    cases hx
    exact ⟨nofun, fun hphase => by first | rfl | cases hphase⟩
  | prepared | committed | undone => exact ⟨hsettle rfl hx, nofun⟩
  | cleaned =>
    cases hx
    exact ⟨fun _ => ⟨Or.inr rfl, rfl⟩, fun _ => rfl⟩

end Told

/-- The error that is going to be passed on from a moment. A pass breaks off without one, unless it is undoing. -/
structure Voiced (m : Moment Obj) : Prop where
  paused : ∀ x ∈ m.request.items, x.deferred = true →
    m.request.phase = .undo ∨ m.request.phase ≠ .cleanup ∧ m.error = none
  told : m.error.isSome = true → m.request.phase = .undo ∨ m.request.phase = .cleanup ∨ m.request.hasError = true

section Voiced
variable {m m' : Moment Obj}

omit [ManagedObject Obj] in
theorem Voiced.advance {r r' : Request} {error : Option Error} {s : State Obj} (h : Voiced ⟨r, error, s⟩)
    (w : Writes S r) (hr : r.advance? = some r') : Voiced ⟨r', error, s⟩ := by
  obtain ⟨phase, hnext, rfl⟩ := advance?_eq hr
  refine ⟨fun x hx hdeferred => ?_, fun herror => ?_⟩
  · obtain ⟨y, -, rfl⟩ := List.mem_map.mp hx
    cases hdeferred
  · have htold := h.told herror
    dsimp only at htold ⊢
    cases w.onward hnext with
    | begin hphase =>
      rw [hasError_restart]
      simpa [hphase] using htold
    | commit hphase hclear | conclude hphase hclear => simp [hphase, hclear] at htold
    | rollBack | takeBack => exact Or.inl rfl
    | drop | wind => exact Or.inr (Or.inl rfl)

/-- A turn keeps what there is of the error that is going to be passed on. -/
theorem Turn.voiced (hturn : Turn S m m') (w : Writes S m.request) (h : Voiced m) : Voiced m' := by
  cases hturn with
  | @serve r error later s t done rest item item' hpass hopen hclear hserved =>
    obtain ⟨htold, hlast⟩ := hserved.told
    have hnone (hphase : r.phase ≠ .undo) (hphase' : r.phase ≠ .cleanup) : error = none := by
      cases error with
      | none => rfl
      | some error =>
        -- An error that is already known has ended the first two phases.
        have hfailed := ((h.told rfl).resolve_left hphase).resolve_left hphase'
        have hearly : r.phase = .prepare ∨ r.phase = .commit := by
          rcases hserved.active with hp | hp | hp | hp
          · exact Or.inl hp
          · exact Or.inr hp
          · exact absurd hp hphase
          · exact absurd hp hphase'
        cases (hclear hearly).symm.trans hfailed
    refine ⟨fun x hx hdeferred => ?_, fun herror => ?_⟩
    · obtain rfl : x = item' := by
        rcases List.mem_append.mp hx with hx | hx
        · have hrested := hpass.rested x (hpass.items ▸ List.mem_append_left _ hx)
          cases hdeferred.symm.trans hrested
        · refine (List.mem_cons.mp hx).resolve_right fun hx => ?_
          have hrested := hpass.rested x (hpass.items ▸ List.mem_append_right _ (List.mem_cons_of_mem _ hx))
          cases hdeferred.symm.trans hrested
      have hlater : later = none := by
        cases later with
        | none => rfl
        | some later => cases hdeferred.symm.trans (htold rfl).2
      by_cases hundo : r.phase = .undo
      · exact Or.inl hundo
      · have hcleanup : r.phase ≠ .cleanup := by
          intro hphase
          cases hdeferred.symm.trans (hlast hphase)
        exact Or.inr ⟨hcleanup, by rw [hnone hundo hcleanup, hlater]; rfl⟩
    · by_cases hundo : r.phase = .undo
      · exact Or.inl hundo
      · by_cases hcleanup : r.phase = .cleanup
        · exact Or.inr (Or.inl hcleanup)
        · rw [hnone hundo hcleanup, Option.none_or] at herror
          have hfailed := (htold herror).1.resolve_right hcleanup
          refine Or.inr (Or.inr ?_)
          simp [Request.hasError, hfailed]
  | wait => exact ⟨h.paused, h.told⟩
  | giveUp =>
    refine ⟨fun x hx hdeferred => ?_, fun herror => ?_⟩
    · obtain ⟨y, hy, rfl⟩ := List.mem_map.mp hx
      split at hdeferred
      · exact h.paused y hy hdeferred
      · cases hdeferred
    · dsimp only
      rw [hasError_finishAll]
      exact h.told herror
  | advance hover hr => exact h.advance w hr
  | retry =>
    refine ⟨fun x hx hdeferred => ?_, fun herror => ?_⟩
    · obtain ⟨y, -, rfl⟩ := List.mem_map.mp hx
      cases hdeferred
    · cases herror

theorem Turns.voiced (hturns : Turns S m m') (w : Writes S m.request) (h : Voiced m) : Voiced m' := by
  induction hturns with
  | refl => exact h
  | tail hbefore hturn ih => exact hturn.voiced (Turns.writes hbefore w) ih

end Voiced

/-! ### What the history says of the items -/

/-- An object was called to undo the item, until it was no longer to be called or counted as over. -/
def Taken (h : List Step) (index : Nat) : Prop :=
  Occurs h .undo index fun st => st.object.isSome && (st.closed || st.after.complete)

/-- How often the item was cleaned up. -/
def cleanups (h : List Step) (index : Nat) : Nat := h.countP fun st => st.callback = .cleanup ∧ st.index = index

/-- The items of a request that writes, as its history has them, whatever its objects do to them. -/
structure Tended (n : Nat) (r : Request) (h : List Step) : Prop extends Blamed r h where
  indices : r.items.map Item.index = List.range n
  bounded : ∀ st ∈ h, st.index < n
  prepared : ∀ x ∈ r.items, x.prepared = true ↔ Prepared h x.index
  target : ∀ x ∈ r.items, cleanups h x.index = 0 → x.target = owner? h x.index
  cleaned : ∀ x ∈ r.items, 0 < cleanups h x.index → x.target = none
  early : r.phase ≠ .cleanup → ∀ i, cleanups h i = 0
  once : ∀ i, cleanups h i ≤ if (owner? h i).isSome then 1 else 0
  undone : r.phase = .undo → ∀ x ∈ r.items, x.complete = true → Prepared h x.index → Taken h x.index
  swept : r.phase = .cleanup → ∀ x ∈ r.items, x.complete = true → x.target = none
  taken : r.phase = .cleanup → Broken h → ∀ i, Prepared h i → Taken h i

/-- What has come of a request that writes and is over: all items whose objects were found are cleaned up once, no
others, and after a failure all that was prepared has been taken back. -/
structure Restored (h : List Step) : Prop where
  cleaned : ∀ i, cleanups h i = if (owner? h i).isSome then 1 else 0
  taken : Broken h → ∀ i, Prepared h i → Taken h i

section Tended
variable {n : Nat} {r : Request} {h : List Step} {done rest : List Item} {item item' : Item} {st : Step} {i : Nat}

theorem cleanups_append : cleanups (h ++ [st]) i =
    cleanups h i + if st.callback = .cleanup ∧ st.index = i then 1 else 0 := by
  simp [cleanups, List.countP_append, List.countP_singleton]

theorem cleanups_append_of_ne (hne : st.index ≠ i ∨ st.callback ≠ .cleanup) :
    cleanups (h ++ [st]) i = cleanups h i := by
  rw [cleanups_append, if_neg, Nat.add_zero]
  rintro ⟨hc, hi⟩
  exact hne.elim (· hi) (· hc)

/-- To clean up an item whose object was found makes it once. -/
theorem Tended.once_step (o : Tended n r h) (hmem : item ∈ r.items) (e : Effect r.phase item item' st) :
    cleanups (h ++ [st]) i ≤ if (owner? (h ++ [st]) i).isSome then 1 else 0 := by
  have hgrows : (if (owner? h i).isSome then 1 else 0) ≤ if (owner? (h ++ [st]) i).isSome then 1 else 0 := by
    rw [owner?_append, Option.isSome_or]
    cases (owner? h i).isSome <;> simp
  by_cases hclean : st.callback = .cleanup ∧ st.index = i
  · obtain ⟨hc, rfl⟩ := hclean
    obtain ⟨-, hobject, hsome⟩ := e.cleaned (callback_eq_cleanup.mp (e.callback.symm.trans hc))
    rw [e.index] at hgrows ⊢
    have hzero : cleanups h item.index = 0 := by
      refine Nat.eq_zero_of_not_pos fun hpos => ?_
      rw [hobject, o.cleaned item hmem hpos] at hsome
      cases hsome
    rw [← o.target item hmem hzero, ← hobject, if_pos hsome] at hgrows
    rw [cleanups_append, hzero]
    split <;> omega
  · rw [cleanups_append, if_neg hclean]
    exact Nat.le_trans (o.once i) hgrows

/-- A step of the current phase. -/
theorem Tended.step (o : Tended n r h) (hitems : r.items = done ++ item :: rest)
    (hclear : r.phase = .prepare ∨ r.phase = .commit → r.hasError = false) (e : Effect r.phase item item' st) :
    Tended n { r with items := done ++ item' :: rest } (h ++ [st]) := by
  have hmem : item ∈ r.items := hitems ▸ List.mem_append_right _ List.mem_cons_self
  have hother {x : Item} (hx : x ∈ done ++ item' :: rest) : x = item' ∨ x ∈ r.items ∧ st.index ≠ x.index :=
    (mem_replace_of_places o.indices hitems hx).imp id fun ⟨hx, hne⟩ => ⟨hx, fun heq => hne (heq ▸ e.index)⟩
  have hcleanup (hphase : r.phase ≠ .cleanup) : st.callback ≠ .cleanup := fun hc =>
    hphase (callback_eq_cleanup.mp (e.callback.symm.trans hc))
  have hclean (hphase : r.phase = .cleanup) : cleanups (h ++ [st]) item'.index ≠ 0 := by
    have hc : st.callback = .cleanup := e.callback.trans (callback_eq_cleanup.mpr hphase)
    rw [cleanups_append, if_pos ⟨hc, e.index.trans e.index'.symm⟩]
    exact Nat.succ_ne_zero _
  refine ⟨o.toBlamed.step hitems hclear e, ?_, ?_, fun x hx => ?_, fun x hx hzero => ?_, fun x hx hpos => ?_,
    fun hphase i => ?_, fun i => o.once_step hmem e, fun hphase x hx hcomplete hprepared => ?_,
    fun hphase x hx hcomplete => ?_, fun hphase hbroken i hprepared => ?_⟩
  · rw [← o.indices, hitems]
    simp [e.index']
  · refine List.forall_mem_append.mpr ⟨o.bounded, List.forall_mem_singleton.mpr ?_⟩
    rw [e.index]
    exact index_lt_of_places o.indices hmem
  · rcases hother hx with rfl | ⟨hx, hne⟩
    · rw [e.prepared, Prepared, occurs_append, e.callback, e.index, e.index', callback_eq_prepare, Bool.or_eq_true,
        o.prepared item hmem]
      simp [Prepared]
    · exact (o.prepared x hx).trans (occurs_append_of_ne (Or.inl hne)).symm
  · rcases hother hx with rfl | ⟨hx, hne⟩
    · have hphase : r.phase ≠ .cleanup := fun hphase => hclean hphase hzero
      have htarget := o.target item hmem (o.early hphase _)
      by_cases hprepare : r.phase = .prepare
      · have hc : st.callback = .prepare := e.callback.trans (callback_eq_prepare.mpr hprepare)
        rw [owner?_append, owner?_singleton, if_pos ⟨hc, e.index.trans e.index'.symm⟩, e.index', ← htarget]
        exact (e.placed hprepare).1
      · have hlater : r.phase = .commit ∨ r.phase = .undo := by
          cases hr : r.phase <;> simp [hr] at hphase hprepare ⊢ <;> exact e.active (by rw [hr]; rfl)
        have hc : st.callback ≠ .prepare := fun hc => hprepare (callback_eq_prepare.mp (e.callback.symm.trans hc))
        rw [owner?_append_of_ne (Or.inr hc), e.index', ← htarget]
        exact (e.aimed hlater).1
    · rw [cleanups_append_of_ne (Or.inl hne)] at hzero
      rw [owner?_append_of_ne (Or.inl hne)]
      exact o.target x hx hzero
  · rcases hother hx with rfl | ⟨hx, hne⟩
    · by_cases hphase : r.phase = .cleanup
      · exact (e.cleaned hphase).1
      · rw [cleanups_append_of_ne (Or.inr (hcleanup hphase)), o.early hphase] at hpos
        cases hpos
    · rw [cleanups_append_of_ne (Or.inl hne)] at hpos
      exact o.cleaned x hx hpos
  · rw [cleanups_append_of_ne (Or.inr (hcleanup hphase))]
    exact o.early hphase i
  · have hundo : r.phase = .undo := hphase
    rcases hother hx with rfl | ⟨hx, hne⟩
    · have hc : st.callback = .undo := by rw [e.callback, hundo]; rfl
      have htarget := o.target item hmem (o.early (by simp [hundo]) _)
      have howner := isSome_owner? ((o.prepared item hmem).mp (e.undone hundo))
      obtain ⟨object, hobject⟩ := Option.isSome_iff_exists.mp (htarget ▸ howner)
      refine occurs_append.mpr (Or.inr ⟨hc, e.index.trans e.index'.symm, ?_⟩)
      rw [(e.aimed (Or.inr hphase)).2 object hobject, Option.isSome_some, Bool.true_and]
      cases htorn : st.torn with
      | false => rw [← e.complete htorn, hcomplete, Bool.true_or]
      | true =>
        rw [Step.torn, Bool.and_eq_true] at htorn
        rw [htorn.1, Bool.or_true]
    · exact (o.undone hphase x hx hcomplete ((occurs_append_of_ne (Or.inl hne)).mp hprepared)).append st
  · rcases hother hx with rfl | ⟨hx, -⟩
    · exact (e.cleaned hphase).1
    · exact o.swept hphase x hx hcomplete
  · have hc : st.callback = .cleanup := e.callback.trans (callback_eq_cleanup.mpr hphase)
    have hbroken : Broken h := by simpa [broken_append, hc] using hbroken
    exact (o.taken hphase hbroken i ((occurs_append_of_ne (Or.inr (by simp [hc]))).mp hprepared)).append st

/-- What changes no more of the items than whether they are over. -/
theorem Tended.relabel (o : Tended n r h) {r' : Request} (hphase : r'.phase = r.phase)
    (hindices : r'.items.map Item.index = r.items.map Item.index) (herror : r'.hasError = r.hasError)
    (hsame : ∀ y ∈ r'.items, ∃ x ∈ r.items, y.index = x.index ∧ y.prepared = x.prepared ∧ y.target = x.target ∧
      (y.complete = true → x.complete = true ∨ (r.phase = .undo → ¬Prepared h y.index) ∧
        (r.phase = .cleanup → y.target = none))) : Tended n r' h where
  toBlamed := o.toBlamed.relabel hphase herror
  indices := hindices.trans o.indices
  bounded := o.bounded
  prepared y hy := by
    obtain ⟨x, hx, hi, hp, -⟩ := hsame y hy
    rw [hp, hi]
    exact o.prepared x hx
  target y hy hzero := by
    obtain ⟨x, hx, hi, -, ht, -⟩ := hsame y hy
    rw [hi] at hzero ⊢
    exact ht.trans (o.target x hx hzero)
  cleaned y hy hpos := by
    obtain ⟨x, hx, hi, -, ht, -⟩ := hsame y hy
    exact ht.trans (o.cleaned x hx (hi ▸ hpos))
  early := hphase ▸ o.early
  once := o.once
  undone hundo y hy hcomplete hprepared := by
    obtain ⟨x, hx, hi, -, -, hc⟩ := hsame y hy
    rcases hc hcomplete with hc | ⟨hnot, -⟩
    · rw [hi] at hprepared ⊢
      exact o.undone (hphase ▸ hundo) x hx hc hprepared
    · exact absurd hprepared (hnot (hphase ▸ hundo))
  swept hcleanup y hy hcomplete := by
    obtain ⟨x, hx, -, -, ht, hc⟩ := hsame y hy
    rcases hc hcomplete with hc | ⟨-, hnone⟩
    · exact ht.trans (o.swept (hphase ▸ hcleanup) x hx hc)
    · exact hnone (hphase ▸ hcleanup)
  taken := hphase ▸ o.taken

theorem Tended.silent (o : Tended n r h) (hitems : r.items = done ++ item :: rest) (hs : Silent r.phase item item') :
    Tended n { r with items := done ++ item' :: rest } h := by
  have hmem : item ∈ r.items := hitems ▸ List.mem_append_right _ List.mem_cons_self
  have hkept : item'.index = item.index ∧ item'.prepared = item.prepared ∧ item'.target = item.target := by
    generalize r.phase = phase at hs
    cases hs <;> exact ⟨rfl, rfl, rfl⟩
  obtain ⟨hi, hp, ht⟩ := hkept
  refine o.relabel rfl ?_ (hasError_silent hitems hs) fun y hy => ?_
  · rw [hitems]
    simp [hi]
  · rcases mem_replace_of_places o.indices hitems hy with rfl | ⟨hy, -⟩
    · refine ⟨item, hmem, hi, hp, ht, fun hc => ?_⟩
      generalize r.phase = phase at hs
      cases hs with
      | late => exact Or.inl hc
      | unprepared hn =>
        refine Or.inr ⟨fun _ hprepared => ?_, nofun⟩
        rw [hi, ← o.prepared item hmem, hn] at hprepared
        cases hprepared
      | untouched hn => exact Or.inr ⟨nofun, fun _ => hn⟩
    · exact ⟨y, hy, rfl, rfl, rfl, Or.inl⟩

theorem Tended.giveUp (o : Tended n r h) (hgive : GivesUp r) : Tended n r.finishAll h := by
  refine o.relabel rfl ?_ (hasError_finishAll r) fun y hy => ?_
  · rw [Request.finishAll, List.map_map]
    refine List.map_congr_left fun x _ => ?_
    dsimp only [Function.comp_apply]
    split <;> rfl
  · obtain ⟨x, hx, rfl⟩ := List.mem_map.mp hy
    refine ⟨x, hx, ?_⟩
    split
    · exact ⟨rfl, rfl, rfl, Or.inl⟩
    · refine ⟨rfl, rfl, rfl, fun _ => Or.inr ⟨fun hphase => ?_, fun hphase => ?_⟩⟩ <;>
        rcases hgive.1 with hp | hp <;> cases hp.symm.trans hphase

theorem Tended.retry (o : Tended n r h) : Tended n r.retry h := by
  refine o.relabel rfl ?_ (hasError_retry r) fun y hy => ?_
  · simp [Request.retry, Function.comp_def]
  · obtain ⟨x, hx, rfl⟩ := List.mem_map.mp hy
    exact ⟨x, hx, rfl, rfl, rfl, Or.inl⟩

omit [ManagedObject Obj] in
theorem Tended.advance {r' : Request} (o : Tended n r h) (w : Writes S r)
    (hover : r.phase = .start ∨ r.isPhaseComplete = true) (hr : r.advance? = some r') : Tended n r' h := by
  have hblamed := o.toBlamed.advance w hr
  obtain ⟨phase, hnext, rfl⟩ := advance?_eq hr
  have hall := w.all_complete hover
  have hitem {y : Item} (hy : y ∈ r.items.map Item.restart) : ∃ x ∈ r.items, y = x.restart := by
    obtain ⟨x, hx, rfl⟩ := List.mem_map.mp hy
    exact ⟨x, hx, rfl⟩
  have hfound {i : Nat} (hprepared : Prepared h i) : ∃ x ∈ r.items, x.index = i := by
    obtain ⟨st, hst, -, rfl, -⟩ := hprepared
    exact exists_of_places o.indices (o.bounded st hst)
  have hphase : r.phase ≠ .cleanup := by cases w.onward hnext <;> simp [*]
  refine ⟨hblamed, ?_, o.bounded, fun y hy => ?_, fun y hy hzero => ?_, fun y hy hpos => ?_, fun _ => o.early hphase,
    o.once, fun _ y hy hcomplete => ?_, fun _ y hy hcomplete => ?_, fun hcleanup hbroken i hprepared => ?_⟩
  · rw [← o.indices, List.map_map]
    rfl
  · obtain ⟨x, hx, rfl⟩ := hitem hy
    exact o.prepared x hx
  · obtain ⟨x, hx, rfl⟩ := hitem hy
    exact o.target x hx hzero
  · obtain ⟨x, hx, rfl⟩ := hitem hy
    exact o.cleaned x hx hpos
  · obtain ⟨x, hx, rfl⟩ := hitem hy
    cases hcomplete
  · obtain ⟨x, hx, rfl⟩ := hitem hy
    cases hcomplete
  · obtain ⟨x, hx, rfl⟩ := hfound hprepared
    obtain rfl : phase = .cleanup := hcleanup
    cases w.onward hnext with
    | drop hphase hfailed hnone => cases (hnone x hx).symm.trans ((o.prepared x hx).mpr hprepared)
    | conclude hphase hclear =>
      rw [(o.error (by simp [hphase]) (by simp [hphase])).mpr hbroken] at hclear
      cases hclear
    | wind hphase => exact o.undone hphase x hx (hall (by simp [hphase]) x hx) hprepared

/-- A request whose last phase is over has been restored. -/
theorem Tended.restored (o : Tended n r h) (hphase : r.phase = .cleanup)
    (hall : ∀ x ∈ r.items, x.complete = true) : Restored h := by
  refine ⟨fun i => ?_, o.taken hphase⟩
  have honce := o.once i
  split at honce
  · next hsome =>
    rw [if_pos hsome]
    refine Nat.le_antisymm honce (Nat.pos_of_ne_zero fun hzero => ?_)
    obtain ⟨st, hst, -, rfl⟩ := exists_of_owner? hsome
    obtain ⟨x, hx, hi⟩ := exists_of_places o.indices (o.bounded st hst)
    have htarget := o.target x hx (hi ▸ hzero)
    rw [o.swept hphase x hx (hall x hx), hi] at htarget
    rw [← htarget] at hsome
    cases hsome
  · next hnone =>
    rw [if_neg hnone]
    exact Nat.le_zero.mp honce

variable {m m' : Moment Obj}

/-- A turn keeps what the history says of the items. -/
theorem Turn.tended (hS : Discreet S) (hturn : Turn S m m') (w : Writes S m.request)
    (o : Tended n m.request (m.past S)) : Tended n m'.request (m'.past S) := by
  unfold Moment.past at o ⊢
  cases hturn with
  | @serve r error later s t done rest item item' hpass hopen hclear hserved =>
    have hrested := hpass.rested item (hpass.items ▸ List.mem_append_right _ List.mem_cons_self)
    dsimp only at o ⊢
    rcases hserved.effect hS hrested with ⟨hsame, hsilent⟩ | ⟨st, hst, heffect⟩
    · rw [hsame]
      exact o.silent hpass.items hsilent
    · rw [hst]
      exact o.step hpass.items hclear heffect
  | wait hphase hwait =>
    dsimp only at o ⊢
    rw [(Activity.ensures_iff.mp (hS.look _ _)).1 _ hwait]
    exact o
  | giveUp hgive => exact o.giveUp hgive
  | advance hover hr => exact o.advance w hover hr
  | retry hr hrely =>
    dsimp only at o ⊢
    rw [hS _ _ hrely]
    exact o.retry

theorem Turns.tended (hS : Discreet S) (hturns : Turns S m m') (w : Writes S m.request)
    (o : Tended n m.request (m.past S)) : Tended n m'.request (m'.past S) := by
  induction hturns with
  | refl => exact o
  | tail hbefore hturn ih => exact hturn.tended hS (Turns.writes hbefore w) ih

theorem tended_start {pdu : Pdu} (hkind : pdu.kind = .set) (who : Requester) (maxSize : Nat) (created : Instant) :
    Tended pdu.bindings.length (.start who pdu maxSize created) [] := by
  have hblank {x : Item} (hx : x ∈ (Request.start who pdu maxSize created).items) :
      x.prepared = false ∧ x.target = none := by
    obtain ⟨_, _, rfl⟩ := exists_of_mem_start (not_bulk_of_set hkind) hx
    exact ⟨rfl, rfl⟩
  refine ⟨blamed_start pdu who maxSize created, indices_start (not_bulk_of_set hkind), by simp, fun x hx => ?_,
    fun x hx _ => (hblank hx).2, fun x _ hpos => absurd hpos (Nat.lt_irrefl 0), fun _ _ => rfl,
    fun _ => Nat.zero_le _, by simp [Request.start], by simp [Request.start], by simp [Request.start]⟩
  simp [(hblank hx).1, Prepared]

/-- A pass that ends in an error has restored everything, unless it broke off in the midst of undoing. -/
theorem Driven.restored {x : Request × Option Error} {t : State Obj} (hS : Discreet S) (h : Driven S m x t)
    (w : Writes S m.request) (o : Tended n m.request (m.past S)) (hm : Voiced m) (herror : x.2.isSome = true) :
    (x.1.phase = .undo ∧ ∃ y ∈ x.1.items, y.deferred = true) ∨ Restored (t.history S.who.transaction) := by
  have hvoiced := Turns.voiced h.turns w hm
  have htended := Turns.tended hS h.turns w o
  rcases h.closed with hcomplete | ⟨y, hy, hdeferred⟩
  · rw [(Turns.writes h.turns w).isComplete, Bool.and_eq_true, List.all_eq_true] at hcomplete
    exact Or.inr (htended.restored (by simpa using hcomplete.1) hcomplete.2)
  · rcases hvoiced.paused y hy hdeferred with hundo | ⟨-, hnone⟩
    · exact Or.inl ⟨hundo, y, hy, hdeferred⟩
    · rw [show x.2 = none from hnone] at herror
      cases herror

end Tended

/-! ### From pass to pass -/

section Passes
variable {a : Agent Obj} {p : Pending} {r : Request} {s t : State Obj} {error : Error}

omit [ManagedObject Obj] in
/-- Where a request that writes goes on while nothing is added to its history. -/
def Scene.aside (a : Agent Obj) (p : Pending) : Scene Obj :=
  ⟨a.policy, p.registry, p.request.requester, Aside p.request.transaction⟩

omit [ManagedObject Obj] in
/-- A request that writes is tended to. -/
def Attended (a : Agent Obj) (p : Pending) (h : List Step) : Prop :=
  p.request.pdu.kind = .set → Writes (Scene.aside a p) p.request ∧ ∃ n, Tended n p.request h

omit [ManagedObject Obj] in
/-- A request that writes is tended to, and none of its items is deferred. -/
def Rested (a : Agent Obj) (p : Pending) (h : List Step) : Prop :=
  Attended a p h ∧ (p.request.pdu.kind = .set → ∀ x ∈ p.request.items, x.deferred = false)

/-- One pass over a request that writes is a sequence of turns. -/
theorem driven_of_yields (hservices : a.services = Agent.standardServices) (hkind : p.request.pdu.kind = .set)
    (w : Writes (Scene.aside a p) p.request) (hrested : ∀ x ∈ p.request.items, x.deferred = false)
    {out : Request × Option Error} (hpass : (a.pass p).Yields (Aside p.request.transaction) s (some out) t) :
    Driven (Scene.aside a p) ⟨p.request, none, s⟩ out t := by
  have hservice : a.serviceFor? p.request.pdu.kind = some service := by
    rw [Agent.serviceFor?, hservices, hkind]
    rfl
  rw [Agent.pass, hservice] at hpass
  exact (run_ensures (s := s) w fun _ => hrested).of_yields_before hpass

/-- Whatever happens, requests that write are tended to. -/
theorem upholds_attended (hservices : a.services = Agent.standardServices) : a.Upholds (Rested a) (Attended a) where
  start m mapping s registry :=
    ⟨fun hkind => ⟨writes_start hkind _ _, _, tended_start hkind _ _ _⟩, fun hkind => rested_start _ hkind _ _ _⟩
  retry p h hp := by
    refine ⟨fun hkind => ?_, fun hkind x hx => ?_⟩
    · obtain ⟨w, n, htended⟩ := hp hkind
      exact ⟨⟨rfl, w.kind, w.status, w.phase⟩, n, htended.retry⟩
    · obtain ⟨y, -, rfl⟩ := List.mem_map.mp hx
      rfl
  pass {p s t r callable} hp hr hready hpass hopen := fun hkind => by
    have hkind : p.request.pdu.kind = .set := hp.kind.trans (hr.kind.symm.trans hkind)
    obtain ⟨w, n, htended⟩ := hready.1 hkind
    have hturns := (driven_of_yields hservices hkind w (hready.2 hkind) hpass).turns
    have w' := Turns.writes hturns w
    exact ⟨⟨rfl, w'.kind, w'.status, w'.phase⟩, n, Turns.tended (fun _ _ => id) hturns w htended⟩

/-- A pass that ends in an error has restored everything, unless it broke off in the midst of undoing. -/
theorem restored_of_yields (hservices : a.services = Agent.standardServices) (hkind : p.request.pdu.kind = .set)
    (hready : Rested a p (s.history p.request.transaction))
    (hpass : (a.pass p).Yields (Aside p.request.transaction) s (some (r, some error)) t) :
    (r.phase = .undo ∧ ∃ x ∈ r.items, x.deferred = true) ∨ Restored (t.history p.request.transaction) := by
  obtain ⟨w, n, htended⟩ := hready.1 hkind
  have hrested := hready.2 hkind
  have hvoiced : Voiced (⟨p.request, none, s⟩ : Moment Obj) :=
    ⟨fun x hx hdeferred => (nomatch (hrested x hx).symm.trans hdeferred), nofun⟩
  exact Driven.restored (fun _ _ => id) (driven_of_yields hservices hkind w hrested hpass) w htended hvoiced rfl

end Passes
end Responder.Set
