import Responder.Proofs.Set.Ledger

/-! What is left of a request that failed. As long as the others leave a store alone, each turn keeps it in
    accord with its ledger (`Turn.kept`), so once the request is complete the store holds what the ledger says:
    of a variable that was written once, what it held before, but of one that was written more often, the
    value written last but one (`rolledBack_of_passes`). -/

namespace Responder.Set

variable {Obj : Type} [ManagedObject Obj] [Store.Among Obj] {S : Scene Obj} {B : Book}

/-- The history of the request, its registry and an object are in one state as they are in another one. -/
structure Untouched (S : Scene Obj) (id : ObjectId) (s t : State Obj) : Prop where
  history : t.history S.who.transaction = s.history S.who.transaction
  entries : (t.registry S.registry).entries = (s.registry S.registry).entries
  object : t.objects id = s.objects id

/-- The others leave the history of the request, its registry and an object alone. -/
def Undisturbed (S : Scene Obj) (id : ObjectId) : Prop := ∀ s t, S.rely s t → Untouched S id s t

/-- The state has the store of a book in it, with something in its variables. -/
def Stored (B : Book) (s : State Obj) (holds : Oid → Option Value) : Prop :=
  ∃ b, s.objects B.id = Store.Among.put b ∧ b.shell = B.store.shell ∧ b.WellFormed ∧ ∀ o, b.value? o = holds o

/-- The registry is that of the book, and the store holds what its ledger says. -/
def Kept (B : Book) (S : Scene Obj) (m : Moment Obj) : Prop :=
  (m.state.registry S.registry).entries = B.entries ∧
    ∃ holds, Stored B m.state holds ∧ Ledger B m.request (m.past S) holds

/-! ### Calls and look-ups -/

section Calls
variable {s t : State Obj} {holds : Oid → Option Value} {item : Item} {id : ObjectId}

omit [ManagedObject Obj] [Store.Among Obj] in
theorem Untouched.trans {u : State Obj} (h : Untouched S id s t) (h' : Untouched S id t u) : Untouched S id s u :=
  ⟨h'.history.trans h.history, h'.entries.trans h.entries, h'.object.trans h.object⟩

omit [ManagedObject Obj] [Store.Among Obj] in
theorem untouched_of_bare (h : t.bare = s.bare) : Untouched S id s t :=
  ⟨State.history_eq_of_bare _ h, State.entries_eq_of_bare h _, congrFun (State.objects_eq_of_bare h) id⟩

omit [ManagedObject Obj] [Store.Among Obj] in
theorem Undisturbed.discreet (hS : Undisturbed S id) : Discreet S := fun s t h => (hS s t h).history

omit [Store.Among Obj] in
/-- A look-up touches nothing, and finds an entry that overlaps the item's region. -/
theorem Undisturbed.look (hS : Undisturbed S id) (item : Item) (s : State Obj) :
    (S.look item).Ensures S.rely (Untouched S id s) s fun f t => Untouched S id s t ∧
      ∀ e, f.entry = some e → e ∈ (s.registry S.registry).entries ∧ item.region.overlaps e.region = true := by
  have hsteady : Steady S.rely S.registry (Untouched S id s) :=
    ⟨fun hlocks hs => hs.trans (untouched_of_bare hlocks.bare), fun hrely hs => hs.trans (hS _ _ hrely)⟩
  refine (Lookup.run_ensures (P := Untouched S id s) hsteady (E := fun e => e ∈ (s.registry S.registry).entries ∧
    item.region.overlaps e.region = true) (fun t ht e he hclose => ⟨ht.entries ▸ he, hclose⟩) _ ⟨rfl, rfl, rfl⟩).mono
      (fun _ ht => ht) ?_
  exact fun f t h => ⟨h.1, fun e he => (h.2 e he).1⟩

omit [Store.Among Obj] in
theorem objects_call_of_ne {callback : Callback} {j : ObjectId} (hj : j ≠ id) :
    (s.call callback S.who j item).2.objects id = s.objects id := if_neg fun h => hj h.symm

omit [Store.Among Obj] in
/-- Only a commit writes, and only to the object that is called. -/
theorem writesTo_call {callback : Callback} {j : ObjectId} (h : callback ≠ .commit ∨ j ≠ id) (o : Oid) :
    writesTo ((s.call callback S.who j item).2.history S.who.transaction) id o =
      writesTo (s.history S.who.transaction) id o := by
  rw [State.history_call, writesTo_append_of_ne (h.imp_right fun hne heq => hne (Option.some.inj heq))]

end Calls

/-! ### Items -/

section Serve
variable {r : Request} {h h' : List Step} {error error' : Option Error} {s t : State Obj} {done rest : List Item}
  {item item' : Item} {phase : Phase} {x x' : Item}

variable {a : Binding}

theorem Filed.refuse (hx : Filed B .prepare a x) (hregion : x'.region = x.region) (htarget : x'.target = x.target)
    (hbinding : x'.binding = x.binding) (hprepared : x'.prepared = x.prepared) (hundo : x'.undoValue = x.undoValue)
    (herror : x.hasError = true → x'.hasError = true) : Filed B .prepare a x' := by
  refine ⟨hregion.trans hx.region, ?_, ?_, ?_, ?_, ?_, ?_, by simp, by simp⟩
  · exact htarget ▸ hx.owner
  · rw [htarget, hbinding]
    exact hx.binding
  · rw [hprepared, htarget]
    exact hx.aimed
  · rw [htarget, hprepared]
    exact fun hown hn => herror (hx.objected hown hn)
  · rw [htarget, hprepared, hbinding]
    exact hx.fits
  · rw [htarget, hprepared, hundo]
    exact hx.blank

/-- An item that the store was prepared for: it is prepared if the value passes, and has an error otherwise. -/
theorem Filed.prepare (hB : B.Sound) (hx : Filed B .prepare a item) (hclear : item.hasError = false)
    (hrested : item.deferred = false) (howner : B.owner? a.oid = some B.id) {p : Policy} :
    Filed B .prepare a (settle p .genErr Set.ready ({ item with target := some B.id }.editAll
      ((B.store.objection item.binding).toList.map .setError), .ok true)).1 := by
  have htarget : item.target = none ∨ item.target = some B.id := by
    cases ht : item.target with
    | none => exact Or.inl rfl
    | some j => exact Or.inr ((hx.owner j ht).symm.trans howner)
  have hblank : item.undoValue = none := hx.blank (htarget.imp id fun hown => ⟨hown, Or.inr (Or.inl rfl)⟩)
  have hfits (hp : item.prepared = true) : B.store.Fits item.binding :=
    hx.fits (htarget.resolve_left (hx.aimed hp)) hp
  have hasked : item.binding = a := hx.binding htarget
  obtain ⟨haregion, hatarget, habinding, haprepared, haundo, hadeferred, haerror, -⟩ :=
    Store.editAll_objection B.store { item with target := some B.id } item.binding
  generalize { item with target := some B.id }.editAll
    ((B.store.objection item.binding).toList.map .setError) = after at *
  have haerror : after.hasError = !B.store.passes item.binding := by
    rw [haerror, show Item.hasError { item with target := some B.id } = false from hclear, Bool.false_or, Store.passes,
      Bool.not_not]
  have hregion : after.region = (Region.point a.oid).inContext (some B.context) := haregion.trans hx.region
  have howner' (j : ObjectId) (hj : after.target = some j) : B.owner? a.oid = some j :=
    howner.trans (hatarget.symm.trans hj)
  have hsome : after.target ≠ none := by simp [hatarget]
  simp only [settle, hadeferred, hrested, Bool.false_eq_true, if_false, Set.ready, haerror, Bool.not_eq_true']
  cases hpasses : B.store.passes item.binding
  · rw [if_pos rfl]
    refine ⟨hregion, howner', fun _ => habinding.trans hasked, fun _ => hsome, fun _ _ => ?_, fun _ hp => ?_,
      fun _ => ?_, by simp, by simp⟩
    · simpa [hpasses] using haerror
    · exact habinding ▸ hfits (haprepared ▸ hp)
    · exact haundo.trans hblank
  · rw [if_neg (by simp)]
    refine ⟨hregion, howner', fun _ => habinding.trans hasked, fun _ => hsome, fun _ hp => (by cases hp), fun _ _ => ?_,
      fun _ => ?_, by simp, by simp⟩
    · exact habinding ▸ Store.fits_of_passes hB.store (hasked ▸ hB.contains howner) hpasses
    · exact haundo.trans hblank

theorem Stored.congr {holds : Oid → Option Value} (h : Stored B s holds) (ht : t.objects B.id = s.objects B.id) :
    Stored B t holds := by
  obtain ⟨b, hb, hshell, hformed, hvalue⟩ := h
  exact ⟨b, ht.trans hb, hshell, hformed, hvalue⟩

theorem Filed.answered {e : Entry} (hx : Filed B phase a x) (hB : B.Sound) (he : e ∈ B.entries)
    (hclose : x.region.overlaps e.region = true) : B.owner? a.oid = some e.object :=
  hB.owner he (hx.region ▸ hclose)

/-- Before anything is committed the store is what it was at first. -/
theorem Stored.first {holds : Oid → Option Value} (h : Stored B s holds) (hB : B.Sound) (L : Ledger B r h' holds)
    (hphase : r.phase = .prepare) : s.objects B.id = Store.Among.put B.store := by
  obtain ⟨b, hb, hshell, hformed, hvalue⟩ := h
  rw [hb, Store.eq_of_value? hformed hB.store hshell fun o => ?_]
  have haccount := L.account o
  simp only [hphase, Account] at haccount
  exact (hvalue o).trans haccount.2

/-- Preparing an item keeps the store in accord with its ledger. -/
theorem Kept.prepare (hB : B.Sound) (hS : Undisturbed S B.id) (K : Kept B S ⟨r, error, s⟩) (hphase : r.phase = .prepare)
    (hitems : r.items = done ++ item :: rest) (hopen : item.complete = false) (hclear : r.hasError = false)
    (hrested : item.deferred = false) {later : Option Error} (hserved : Served S .prepare item s (item', later) t) :
    Kept B S ⟨{ r with items := done ++ item' :: rest }, error', t⟩ := by
  obtain ⟨hentries, holds, hstored, L⟩ := K
  have hmem : item ∈ r.items := hitems ▸ List.mem_append_right _ List.mem_cons_self
  have hlook {f : Finding} {t : State Obj} (hf : (S.look item).Yields S.rely s f t) :=
    (Activity.ensures_iff.mp (hS.look item s)).2 f t hf
  generalize hx : (item', later) = x at hserved
  cases hserved with
  | late hf hnone hlock =>
    cases hx
    obtain ⟨hu, -⟩ := hlook hf
    refine ⟨hu.entries.trans hentries, holds, hstored.congr hu.object, ?_⟩
    refine L.prepare hphase hitems hclear (fun _ hfiled => hfiled.refuse rfl rfl rfl rfl rfl id) (fun _ hc => ?_)
      fun o => ?_
    · cases hopen.symm.trans hc
    · exact congrArg (writesTo · B.id o) hu.history
  | refused hf hnone hlock =>
    cases hx
    obtain ⟨hu, -⟩ := hlook hf
    refine ⟨hu.entries.trans hentries, holds, hstored.congr hu.object, ?_⟩
    refine L.prepare hphase hitems hclear (fun _ hfiled => ?_) (fun he => ?_) fun o => ?_
    · refine hfiled.refuse (Item.setError_region _ _) (Item.setError_target _ _) (Item.setError_binding _ _)
        (Item.setError_prepared _ _) (Item.setError_undoValue _ _) fun he => ?_
      exact (Item.hasError_setError _ _).trans (by rw [he, Bool.true_or])
    · have herror := Item.hasError_setError item (absence (S.policy.query S.who item.region true) item.oid)
      rw [isError_absence, Bool.or_true] at herror
      cases herror.symm.trans he
    · dsimp only [Moment.past]
      rw [State.history_refuse, writesTo_append_of_ne (Or.inl (by simp)), hu.history]
  | @prepared _ _ u f e hf hsome =>
    obtain ⟨hu, hfound⟩ := hlook hf
    obtain ⟨he, hclose⟩ := hfound e hsome
    have hstored := hstored.congr hu.object
    obtain rfl : item' = _ := congrArg Prod.fst hx
    have hfirst := hstored.first hB L hphase
    refine ⟨hu.entries.trans hentries, holds, ?_, ?_⟩
    · by_cases hid : e.object = B.id
      · refine hstored.congr (Eq.trans ?_ hfirst.symm)
        rw [hid, (State.call_put hfirst .prepare _ _).2, Store.call_prepare]
      · exact hstored.congr (objects_call_of_ne hid)
    · refine L.prepare hphase hitems hclear (fun a hfiled => ?_) (fun _ _ => ?_) fun o => ?_
      · have howner := hfiled.answered hB (hentries ▸ he) hclose
        by_cases hid : e.object = B.id
        · rw [hid, (State.call_put hfirst .prepare _ _).1, Store.call_prepare]
          exact hfiled.prepare hB (hasError_of_mem hclear hmem) hrested (hid ▸ howner)
        · refine .foreign ?_ howner ?_ hid
          · rw [settle_region ready_region]
            exact (Item.editAll_region _ _).trans hfiled.region
          · rw [settle_target ready_target]
            exact Item.editAll_target _ _
      · rw [settle_target ready_target]
        simp [State.call]
      · exact (writesTo_call (Or.inl (by simp)) o).trans (congrArg (writesTo · B.id o) hu.history)

theorem Stored.write {holds : Oid → Option Value} (h : Stored B s holds) {o : Oid} {v : Value}
    (ho : B.store.holds o = true) : ∃ b, s.objects B.id = Store.Among.put b ∧ b.record o = (holds o).getD .null ∧
      ∀ t : State Obj, t.objects B.id = Store.Among.put (b.write o v) →
        Stored B t fun o' => if o' = o then some v else holds o' := by
  obtain ⟨b, hb, hshell, hformed, hvalue⟩ := h
  have hbo : b.holds o = true := Store.holds_of_shell hshell ▸ ho
  refine ⟨b, hb, (Store.record_eq hbo).trans (by rw [hvalue]), fun t ht => ?_⟩
  refine ⟨_, ht, Store.shell_write.trans hshell, hformed.write hbo, fun o' => ?_⟩
  rw [Store.value?_write hformed hbo, hvalue]

theorem Stored.restore {holds : Oid → Option Value} (h : Stored B s holds) {o : Oid} {u : Value}
    (ho : B.store.holds o = true) : ∃ b, s.objects B.id = Store.Among.put b ∧
      ∀ t : State Obj, t.objects B.id = Store.Among.put (b.restore o u) →
        Stored B t fun o' => if o' = o then B.store.restored u else holds o' := by
  obtain ⟨b, hb, hshell, hformed, hvalue⟩ := h
  have hbo : b.holds o = true := Store.holds_of_shell hshell ▸ ho
  refine ⟨b, hb, fun t ht => ?_⟩
  refine ⟨_, ht, Store.shell_restore.trans hshell, hformed.restore hbo, fun o' => ?_⟩
  rw [Store.value?_restore hformed hbo, hvalue, Store.restored_of_shell hshell]

theorem Kept.foreign (K : Kept B S ⟨r, error, s⟩) (hphase : r.phase = .commit ∨ r.phase = .undo)
    (hitems : r.items = done ++ item :: rest) (hdone : ∀ x ∈ done, x.complete = true) (hopen : item.complete = false)
    (hclear : r.phase = .commit → r.hasError = false) {j : ObjectId} (hj : item.target = some j) (hid : j ≠ B.id)
    (callback : Callback) (status : Status)
    (hitem' : item' = (settle S.policy status Item.finish (s.call callback S.who j item).1).1) :
    Kept B S ⟨{ r with items := done ++ item' :: rest }, error', (s.call callback S.who j item).2⟩ := by
  obtain ⟨hentries, holds, hstored, L⟩ := K
  subst hitem'
  refine ⟨hentries, holds, hstored.congr (objects_call_of_ne hid), ?_⟩
  refine L.foreign hphase hitems hdone hopen hclear hj hid ?_ ?_ fun o => writesTo_call (Or.inr hid) o
  · rw [settle_target Item.finish_target]
    exact item.editAll_target _
  · rw [settle_region Item.finish_region]
    exact item.editAll_region _

theorem Kept.commit (K : Kept B S ⟨r, error, s⟩) (hphase : r.phase = .commit)
    (hitems : r.items = done ++ item :: rest) (hdone : ∀ x ∈ done, x.complete = true) (hopen : item.complete = false)
    (hclear : r.hasError = false) (hrested : item.deferred = false) {later : Option Error}
    (hserved : Served S .commit item s (item', later) t) :
    Kept B S ⟨{ r with items := done ++ item' :: rest }, error', t⟩ := by
  have ⟨hentries, holds, hstored, L⟩ := K
  have hmem : item ∈ r.items := hitems ▸ List.mem_append_right _ List.mem_cons_self
  obtain ⟨a, hfiled⟩ := L.of_mem (by simp [hphase]) hmem
  obtain ⟨j, hj⟩ := Option.ne_none_iff_exists'.mp (L.aimed hphase item hmem)
  generalize hx : (item', later) = x at hserved
  cases hserved with
  | stranded ha => cases (history_aim ha).2 j hj
  | committed ha =>
    obtain ⟨rfl, htarget⟩ := history_aim ha
    cases htarget j hj
    obtain rfl : item' = _ := congrArg Prod.fst hx
    by_cases hid : j = B.id
    · subst hid
      have hprepared := hfiled.prepared_of_clear hj (hasError_of_mem hclear hmem)
      obtain ⟨b, hb, hrecord, hwrite⟩ :=
        hstored.write (o := item.oid) (v := item.value) (hfiled.fits hj hprepared).holds
      obtain ⟨hcalled, hobject⟩ := State.call_put hb .commit S.who item
      rw [Store.call_commit] at hcalled hobject
      refine ⟨hentries, _, hwrite _ hobject, ?_⟩
      refine L.commit hphase hitems hdone hopen hclear hj hrecord ?_ fun o => ?_
      · rw [hcalled]
        simp [settle, Item.edit, hrested, Item.finish]
      · dsimp only [Moment.past]
        rw [State.history_call, writesTo_append]
        simp
    · exact K.foreign (Or.inl hphase) hitems hdone hopen (fun _ => hclear) hj hid _ _ rfl

theorem Kept.undo (K : Kept B S ⟨r, error, s⟩) (hphase : r.phase = .undo) (hitems : r.items = done ++ item :: rest)
    (hdone : ∀ x ∈ done, x.complete = true) (hopen : item.complete = false) (hrested : item.deferred = false)
    {later : Option Error} (hserved : Served S .undo item s (item', later) t) :
    Kept B S ⟨{ r with items := done ++ item' :: rest }, error', t⟩ := by
  have ⟨hentries, holds, hstored, L⟩ := K
  have hmem : item ∈ r.items := hitems ▸ List.mem_append_right _ List.mem_cons_self
  obtain ⟨a, hfiled⟩ := L.of_mem (by simp [hphase]) hmem
  generalize hx : (item', later) = x at hserved
  cases hserved with
  | unprepared hn =>
    cases hx
    by_cases hown : item.target = none ∨ item.target = some B.id
    · have hblank : item.undoValue = none := hfiled.blank (hown.imp id fun h => ⟨h, Or.inr (Or.inr hn)⟩)
      refine ⟨hentries, holds, hstored, ?_⟩
      refine L.undo hphase hitems hdone hown ?_ (fun o => ?_) fun o => rfl
      · rw [Item.finish, ← hblank]
      · rw [hblank]
    · rw [not_or] at hown
      obtain ⟨j, hj⟩ := Option.ne_none_iff_exists'.mp hown.1
      refine ⟨hentries, holds, hstored, ?_⟩
      exact L.foreign (Or.inr hphase) hitems hdone hopen (by simp [hphase]) hj (fun hid => hown.2 (hid ▸ hj)) rfl rfl
        fun o => rfl
  | kept hp ha =>
    obtain ⟨j, hj⟩ := Option.ne_none_iff_exists'.mp (hfiled.aimed hp)
    cases (history_aim ha).2 j hj
  | @undone _ _ _ j hp ha =>
    obtain ⟨k, hk⟩ := Option.ne_none_iff_exists'.mp (hfiled.aimed hp)
    obtain ⟨rfl, htarget⟩ := history_aim ha
    have hj : item.target = some j := hk.trans (htarget k hk).symm
    obtain rfl : item' = _ := congrArg Prod.fst hx
    by_cases hid : j = B.id
    · subst hid
      cases hundo : item.undoValue with
      | none =>
        obtain ⟨b, hb, hkept⟩ := hstored
        obtain ⟨hcalled, hobject⟩ := State.call_put hb .undo S.who item
        rw [Store.call_undo_of_none _ _ _ hundo] at hcalled hobject
        refine ⟨hentries, holds, ⟨b, hobject, hkept⟩, ?_⟩
        refine L.undo hphase hitems hdone (Or.inr hj) ?_ (fun o => ?_) fun o => writesTo_call (Or.inl (by simp)) o
        · rw [hcalled]
          simp [settle, hrested, Item.finish, hundo]
        · rw [hundo]
      | some u =>
        obtain ⟨b, hb, hrestore⟩ := hstored.restore (o := item.oid) (u := u) (hfiled.fits hj hp).holds
        obtain ⟨hcalled, hobject⟩ := State.call_put hb .undo S.who item
        rw [Store.call_undo_of_some _ _ _ hundo] at hcalled hobject
        refine ⟨hentries, _, hrestore _ hobject, ?_⟩
        refine L.undo hphase hitems hdone (Or.inr hj) ?_ (fun o => ?_) fun o => writesTo_call (Or.inl (by simp)) o
        · rw [hcalled]
          simp [settle, Item.edit, hrested, Item.finish]
        · rw [hundo]
    · exact K.foreign (Or.inr hphase) hitems hdone hopen (by simp [hphase]) hj hid _ _ rfl

theorem Kept.cleanup (K : Kept B S ⟨r, error, s⟩) (hphase : r.phase = .cleanup) {later : Option Error}
    (hserved : Served S .cleanup item s (item', later) t) :
    Kept B S ⟨{ r with items := done ++ item' :: rest }, error', t⟩ := by
  obtain ⟨hentries, holds, hstored, L⟩ := K
  generalize hx : (item', later) = x at hserved
  cases hserved with
  | untouched hnone => exact ⟨hentries, holds, hstored, L.cleanup hphase (fun _ => rfl) Iff.rfl⟩
  | @cleaned _ _ j htarget =>
    have hu : Untouched S B.id s (s.unlock S.registry S.who.transaction j).2 := untouched_of_bare (s.bare_unlock _ _ _)
    have hstored := hstored.congr hu.object
    refine ⟨hu.entries.trans hentries, holds, ?_, L.cleanup hphase (fun o => ?_) ?_⟩
    · by_cases hid : j = B.id
      · obtain ⟨b, hb, hkept⟩ := hstored
        subst hid
        refine ⟨b, ?_, hkept⟩
        rw [(State.call_put hb .cleanup _ _).2, Store.call_cleanup]
      · exact hstored.congr (objects_call_of_ne hid)
    · exact (writesTo_call (Or.inl (by simp)) o).trans (congrArg (writesTo · B.id o) hu.history)
    · dsimp only [Moment.past]
      rw [State.history_call, hu.history, broken_append]
      simp

end Serve

/-! ### Requests -/

section Requests
variable {m m' : Moment Obj}

theorem Untouched.kept {r : Request} {error : Option Error} {s t : State Obj} (h : Untouched S B.id s t)
    (K : Kept B S ⟨r, error, s⟩) : Kept B S ⟨r, error, t⟩ := by
  obtain ⟨hentries, holds, hstored, L⟩ := K
  refine ⟨h.entries.trans hentries, holds, hstored.congr h.object, ?_⟩
  dsimp only [Moment.past] at L ⊢
  rwa [h.history]

/-- A turn keeps a store in accord with its ledger. -/
theorem Turn.kept (hB : B.Sound) (hS : Undisturbed S B.id) (hturn : Turn S m m') (w : Writes S m.request)
    (hblamed : Blamed m.request (m.past S)) (K : Kept B S m) : Kept B S m' := by
  cases hturn with
  | @serve r error later s t done rest item item' hpass hopen hclear hserved =>
    have hrested := hpass.rested item (hpass.items ▸ List.mem_append_right _ List.mem_cons_self)
    have hkept : Kept B S ⟨{ r with items := done ++ item' :: rest }, error.or later, t⟩ := by
      cases hphase : r.phase <;> rw [hphase] at hserved <;> rw [← hphase]
      · cases hserved
      · cases hserved
      · exact K.prepare hB hS hphase hpass.items hopen (hclear (Or.inl hphase)) hrested hserved
      · exact K.commit hphase hpass.items hpass.behind hopen (hclear (Or.inr hphase)) hrested hserved
      · exact K.undo hphase hpass.items hpass.behind hopen hrested hserved
      · exact K.cleanup hphase hserved
    exact hkept
  | wait hphase hwait => exact ((Activity.ensures_iff.mp (hS.look _ _)).1 _ hwait).kept K
  | giveUp hgive =>
    obtain ⟨hentries, holds, hstored, L⟩ := K
    exact ⟨hentries, holds, hstored, L.giveUp hgive⟩
  | advance hclose hr =>
    obtain ⟨hentries, holds, hstored, L⟩ := K
    exact ⟨hentries, holds, hstored, L.advance hblamed w hclose hr⟩
  | retry hr hrely =>
    obtain ⟨hentries, holds, hstored, L⟩ := (hS _ _ hrely).kept K
    exact ⟨hentries, holds, hstored, L.retry⟩

theorem Turns.kept (hB : B.Sound) (hS : Undisturbed S B.id) (hturns : Turns S m m') (w : Writes S m.request)
    (hblamed : Blamed m.request (m.past S)) (K : Kept B S m) : Blamed m'.request (m'.past S) ∧ Kept B S m' := by
  induction hturns with
  | refl => exact ⟨hblamed, K⟩
  | tail hbefore hturn ih =>
    have w' := Turns.writes hbefore w
    exact ⟨hturn.blamed hS.discreet w' ih.1, hturn.kept hB hS w' ih.1 ih.2⟩

variable {id : ObjectId} {b : Store} {regionOf : ObjectId → Region} {s : State Obj}

/-- The book that is kept of a store while a request is served. -/
def bookOf (S : Scene Obj) (s : State Obj) (pdu : Pdu) (id : ObjectId) (b : Store) : Book :=
  ⟨id, b, S.who.context, (s.registry S.registry).entries, pdu.bindings⟩

omit [ManagedObject Obj] [Store.Among Obj] in
theorem sound_of_reachable (hformed : b.WellFormed) (hreachable : (s.registry S.registry).Reachable regionOf)
    (hregion : regionOf id = ManagedObject.region b) (pdu : Pdu) : (bookOf S s pdu id b).Sound := by
  obtain ⟨hordered, hunder⟩ := hreachable.ordered
  refine ⟨hformed, hordered, fun e he hid => ?_⟩
  rw [hunder e he, hid]
  exact congrArg Region.toRange hregion

/-- Once a request is complete, a store holds what was asked of it, or what is left of that if something has failed. -/
theorem closed_of_passes {pdu : Pdu} (hkind : pdu.kind = .set) {maxSize : Nat} {created : Instant}
    (hobject : s.objects id = Store.Among.put b) (hformed : b.WellFormed)
    (hreachable : (s.registry S.registry).Reachable regionOf) (hregion : regionOf id = ManagedObject.region b)
    (hS : Undisturbed S id) (hfresh : s.history S.who.transaction = []) {r : Request} {error : Option Error}
    {t : State Obj} (hq : Passes S (.start S.who pdu maxSize created) s (.done (r, error) t))
    (hc : r.isComplete = true) : ∃ b', t.objects id = Store.Among.put b' ∧ b'.shell = b.shell ∧ b'.WellFormed ∧
      ∀ o, (writesTo (t.history S.who.transaction) id o).Sublist ((bookOf S s pdu id b).asked o) ∧
        Account (bookOf S s pdu id b) .cleanup r.items (t.history S.who.transaction) o (b'.value? o) := by
  have w := writes_start (S := S) hkind maxSize created
  have hturns := (hq.ensures w rfl).turns
  have hblamed := blamed_start pdu S.who maxSize created
  have L : Ledger (bookOf S s pdu id b) (.start S.who pdu maxSize created) [] b.value? :=
    ledger_start hkind maxSize created rfl rfl
  rw [← hfresh] at hblamed L
  obtain ⟨-, -, holds, ⟨b', hb', hshell, hformed', hvalue⟩, L⟩ :=
    Turns.kept (sound_of_reachable hformed hreachable hregion pdu) hS hturns w hblamed
      ⟨rfl, b.value?, ⟨b, hobject, rfl, hformed, fun _ => rfl⟩, L⟩
  have hphase : r.phase = .cleanup := by
    have w' := Turns.writes hturns w
    rw [w'.isComplete, Bool.and_eq_true] at hc
    simpa using hc.1
  exact ⟨b', hb', hshell, hformed', fun o => ⟨L.asked o, hphase ▸ hvalue o ▸ L.account o⟩⟩

/-- A store that is rolled back is what it was before just if each value written last but one was there before. So
it is where no variable is written twice. -/
theorem restored_of_account {b' : Store} {h : List Step} (hformed : b.WellFormed) (hformed' : b'.WellFormed)
    (hshell : b'.shell = b.shell)
    (hvalues : ∀ o, b'.value? o = (lastButOne? (writesTo h id o)).or (b.value? o)) :
    b' = b ↔ ∀ o v, lastButOne? (writesTo h id o) = some v → b.value? o = some v := by
  constructor
  · rintro rfl o v hv
    rw [hvalues o, hv, Option.some_or]
  · intro hall
    refine Store.eq_of_value? hformed' hformed hshell fun o => ?_
    rw [hvalues o]
    cases hbut : lastButOne? (writesTo h id o) with
    | none => rfl
    | some v => exact (hall o v hbut).symm

/-- Roll-back: however often a request that writes is taken up, and whatever its other objects answer, once it is
complete and something in it has failed, a store that the others leave alone holds in each variable the value that
was written to it last but one, and what it held before where there is none. So it is what it was before just if
those values are, and always where the request names no variable twice. -/
theorem rolledBack_of_passes {pdu : Pdu} (hkind : pdu.kind = .set) {maxSize : Nat} {created : Instant}
    (hobject : s.objects id = Store.Among.put b) (hformed : b.WellFormed)
    (hreachable : (s.registry S.registry).Reachable regionOf) (hregion : regionOf id = ManagedObject.region b)
    (hS : Undisturbed S id) (hfresh : s.history S.who.transaction = []) {r : Request} {error : Option Error}
    {t : State Obj} (hq : Passes S (.start S.who pdu maxSize created) s (.done (r, error) t))
    (hc : r.isComplete = true) (hbroken : Broken (t.history S.who.transaction)) :
    (∃ b', t.objects id = Store.Among.put b' ∧ b'.shell = b.shell ∧
      ∀ o, b'.value? o = (lastButOne? (writesTo (t.history S.who.transaction) id o)).or (b.value? o)) ∧
    (t.objects id = s.objects id ↔
      ∀ o v, lastButOne? (writesTo (t.history S.who.transaction) id o) = some v → b.value? o = some v) ∧
    ((pdu.bindings.map (·.oid)).Nodup → t.objects id = s.objects id) := by
  obtain ⟨b', hb', hshell, hformed', hclosed⟩ :=
    closed_of_passes hkind hobject hformed hreachable hregion hS hfresh hq hc
  have hvalues (o : Oid) : b'.value? o =
      (lastButOne? (writesTo (t.history S.who.transaction) id o)).or (b.value? o) := (hclosed o).2.1 hbroken
  have hiff := restored_of_account hformed hformed' hshell hvalues
  rw [hb', hobject, Store.Among.put_injective.eq_iff]
  refine ⟨⟨b', rfl, hshell, hvalues⟩, hiff, fun hnodup => hiff.mpr fun o v hv => ?_⟩
  have hone := (hclosed o).1.length_le.trans (Book.length_asked_le (B := bookOf S s pdu id b) hnodup o)
  cases hv.symm.trans (lastButOne?_eq_none hone)

/-! ### A variable that is written twice -/

/-- A scalar, and a probe that has a fault when it is committed. -/
def shelf : State Instrument where
  objects id :=
    if id.number = 0 then .scalar { oid := ⟨[1, 0]⟩, value := .integer 0, writable := true }
    else .scripted
      { region := .subtree ⟨[2]⟩
        values := .empty
        script := fun callback => if callback = .commit then [{ fault := some ⟨none, "disk full"⟩ }] else [] }
  registries := [{
    entries := [⟨.subtree ⟨[1]⟩, ⟨0⟩⟩, ⟨.subtree ⟨[2]⟩, ⟨1⟩⟩]
    regions := [(⟨⟨1⟩, none⟩, .subtree ⟨[2]⟩), (⟨⟨0⟩, none⟩, .subtree ⟨[1]⟩)] }]
  outstanding := ⟨.seconds 300, []⟩

/-- A request that writes the scalar twice, and then to the probe. -/
def rewriting : Pdu := .setting 1 [⟨⟨[1, 0]⟩, .integer 1⟩, ⟨⟨[1, 0]⟩, .integer 2⟩, ⟨⟨[2, 0]⟩, .integer 3⟩]

/-- The shelf with nobody else about. -/
def alone : Scene Instrument := ⟨{ lockTimeout := .seconds 5 }, 0, writer, fun s t => t = s⟩

/-- What a variable of a store holds. -/
def held? : Instrument → Oid → Option Value
  | .scalar s => (Store.scalar s).value?
  | .table t => (Store.table t).value?
  | .constant _ | .scripted _ => fun _ => none

theorem shelf_reachable : (shelf.registry 0).Reachable fun id => ManagedObject.region (shelf.objects id) := by
  have hempty : Registry.Reachable (fun id => ManagedObject.region (shelf.objects id)) {} := .empty rfl rfl
  have hscalar := hempty.register
    (show Registry.register {} ⟨0⟩ (ManagedObject.region (shelf.objects ⟨0⟩)) none = .ok _ from rfl)
  exact hscalar.register (show Registry.register _ ⟨1⟩ (ManagedObject.region (shelf.objects ⟨1⟩)) none = .ok _ from rfl)

/-- What a variable is taken back to is not what it held before the request. -/
theorem not_rolledBack_of_rewriting : ∃ r error t,
    Passes alone (.start writer rewriting 484 ⟨0⟩) shelf (.done (r, error) t) ∧ r.isComplete = true ∧
      Broken (t.history ⟨0⟩) ∧
      (∀ st ∈ t.history ⟨0⟩, st.callback = .undo →
        st.faulted = false ∧ st.after.status = st.before.status ∧ st.after.deferred = false) ∧
      held? (shelf.objects ⟨0⟩) ⟨[1, 0]⟩ = some (.integer 0) ∧ held? (t.objects ⟨0⟩) ⟨[1, 0]⟩ = some (.integer 1) := by
  have hrun : (run alone.policy 0 (.start writer rewriting 484 ⟨0⟩) shelf).result?.any (fun x =>
      x.1.1.isComplete && ((x.2.history ⟨0⟩).any fun st => decide (st.callback = .commit) && st.failed) &&
        ((x.2.history ⟨0⟩).all fun st => !decide (st.callback = .undo) ||
          (!st.faulted && decide (st.after.status = st.before.status) && !st.after.deferred)) &&
        decide (held? (x.2.objects ⟨0⟩) ⟨[1, 0]⟩ = some (.integer 1))) = true := by
    decide +kernel
  rw [Option.any_eq_true] at hrun
  obtain ⟨⟨⟨r, error⟩, t⟩, hrun, htest⟩ := hrun
  simp only [Bool.and_eq_true, List.any_eq_true, List.all_eq_true, decide_eq_true_eq] at htest
  obtain ⟨⟨⟨hcomplete, st, hst, hcommit, hfailed⟩, hundone⟩, hheld⟩ := htest
  refine ⟨r, error, t, Progress.eq_done_of_result? hrun ▸ .first, hcomplete, ⟨st, hst, Or.inr hcommit, hfailed⟩, ?_,
    rfl, hheld⟩
  intro st hst hundo
  simpa [hundo, and_assoc] using hundone st hst

/-- The first value is left, as it was written last but one. -/
theorem rolledBack_of_rewriting : ∃ r error t,
    Passes alone (.start writer rewriting 484 ⟨0⟩) shelf (.done (r, error) t) ∧ r.isComplete = true ∧
      Broken (t.history ⟨0⟩) ∧ (t.objects ⟨0⟩ = shelf.objects ⟨0⟩ ↔
        ∀ o v, lastButOne? (writesTo (t.history ⟨0⟩) ⟨0⟩ o) = some v →
          held? (shelf.objects ⟨0⟩) o = some v) := by
  have hrun : (run alone.policy 0 (.start writer rewriting 484 ⟨0⟩) shelf).result?.any (fun x =>
      x.1.1.isComplete && (x.2.history ⟨0⟩).any fun st => decide (st.callback = .commit) && st.failed) = true := by
    decide +kernel
  rw [Option.any_eq_true] at hrun
  obtain ⟨⟨⟨r, error⟩, t⟩, hrun, htest⟩ := hrun
  simp only [Bool.and_eq_true, List.any_eq_true, decide_eq_true_eq] at htest
  obtain ⟨hcomplete, st, hst, hcommit, hfailed⟩ := htest
  have hq : Passes alone (.start writer rewriting 484 ⟨0⟩) shelf (.done (r, error) t) :=
    Progress.eq_done_of_result? hrun ▸ .first
  have hbroken : Broken (t.history ⟨0⟩) := ⟨st, hst, Or.inr hcommit, hfailed⟩
  have hS : Undisturbed alone ⟨0⟩ := by
    rintro s t rfl
    exact ⟨rfl, rfl, rfl⟩
  have hboth := rolledBack_of_passes (b := .scalar { oid := ⟨[1, 0]⟩, value := .integer 0, writable := true })
    (show rewriting.kind = .set from rfl) rfl trivial shelf_reachable rfl hS rfl hq hcomplete hbroken
  exact ⟨r, error, t, hq, hcomplete, hbroken, hboth.2.1⟩

end Requests
end Responder.Set
