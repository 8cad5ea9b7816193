import Responder.Proofs.Custody.Contention
import Responder.Proofs.Reading

/-! Searches that meet locks of others. While others hold some objects, a search is served as if these were not
    registered, but for its end: where it finds nothing more and one of them is registered for what is left of its
    region, it is put off. So it is served as if nothing were held, unless that would have led it to such an object
    (`fares_of_alone`). -/

namespace Responder

variable {Obj : Type}

/-! ### What a search would meet otherwise -/

namespace State

/-- The state without any lock in a registry. -/
def unlocked (s : State Obj) (number : Nat) : State Obj := s.setLocks number {}

/-- The state without any lock in a registry, and without the objects there that others hold. -/
def openTo (s : State Obj) (number : Nat) (owner : TransactionId) : State Obj :=
  let r := s.registry number
  s.setRegistry number { r with entries := r.entries.filter fun e => !r.locks.withholds owner e.object, locks := {} }

theorem registry_setRegistry {s : State Obj} {number : Nat} (h : number < s.registries.length) (r : Registry) :
    (s.setRegistry number r).registry number = r := by
  simp [setRegistry, registry, List.getD_eq_getElem?_getD, h]

end State

/-- The object had nothing for the item, and left it open. -/
def Step.Barren (st : Step) : Prop := st.result = .ok false ∧ st.after.complete = false

namespace Next

variable {number : Nat} {who : Requester} {entries seen : List Entry} {held : ObjectId → Bool} {s s' t t' : State Obj}
  {x y : Item} {st : Step} {steps : List Step} {out out' : Item × Option Error}

/-- An object that is held is registered for what is left of the region of an item. -/
def Blocked (entries : List Entry) (held : ObjectId → Bool) (x : Item) : Prop :=
  ∃ e ∈ entries, x.region.overlaps e.region = true ∧ held e.object = true

/-- A state where nobody else holds a lock in a registry, with the entries there. -/
structure Lone (number : Nat) (who : Requester) (seen : List Entry) (s : State Obj) : Prop where
  entries : (s.registry number).entries = seen
  owned : (s.registry number).locks.OwnedBy who.transaction

/-- A state where others hold some objects of a registry, next to one with the same objects. -/
structure Shadows (number : Nat) (who : Requester) (entries : List Entry) (held : ObjectId → Bool)
    (s s' : State Obj) : Prop where
  objects : s'.objects = s.objects
  sound : (s.registry number).locks.Sound
  locking : (s.registry number).locking = .always
  entries : (s.registry number).entries = entries
  held : ∀ object, s.withholds number who.transaction object = held object

/-- How a search of an item ends among held objects, next to one that meets no locks and takes some steps. -/
inductive Accords (entries : List Entry) (held : ObjectId → Bool) (x : Item) (steps : List Step) :
    Item × Option Error → Item × Option Error → Prop
  | same (out : Item × Option Error) (hleft : x.complete = false → (∀ st ∈ steps, st.Barren) →
      out.1.complete = true → ¬Blocked entries held out.1) : Accords entries held x steps out out
  | late (y : Item) (hopen : x.complete = false → (∀ st ∈ steps, st.Barren) → y.complete = false) :
      Accords entries held x steps (y.defer, none) (endOfView y, none)

theorem Accords.cons (h : Accords entries held y steps out out') (hopen : st.Barren → y.complete = false) :
    Accords entries held x (st :: steps) out out' := by
  cases h with
  | same out hleft =>
    refine .same out fun _ hall => ?_
    obtain ⟨hst, hrest⟩ := List.forall_mem_cons.mp hall
    exact hleft (hopen hst) hrest
  | late y hlate =>
    refine .late y fun _ hall => ?_
    obtain ⟨hst, hrest⟩ := List.forall_mem_cons.mp hall
    exact hlate (hopen hst) hrest

/-- A search ends alike where its last object has given an answer. -/
theorem accords_answered (hst : ¬st.Barren) (out : Item × Option Error) : Accords entries held x [st] out out :=
  .same out fun _ hall => absurd (hall st List.mem_cons_self) hst

/-- What is found in a list is found in a part of it that keeps it. -/
theorem find?_filter_of_kept {α : Type} {keep accepts : α → Bool} : ∀ {xs : List α},
    (∀ x, xs.find? accepts = some x → keep x = true) → (xs.filter keep).find? accepts = xs.find? accepts
  | [], _ => rfl
  | x :: xs, h => by
    cases haccept : accepts x with
    | true =>
      have hkept := h x (by simp [haccept])
      simp [hkept, haccept]
    | false =>
      have ih : (xs.filter keep).find? accepts = xs.find? accepts :=
        find?_filter_of_kept fun y hy => h y (by simp [haccept, hy])
      cases hkeep : keep x <;> simp [hkeep, haccept, ih]

theorem not_blocked_of_isEmpty (h : x.region.isEmpty = true) : ¬Blocked entries held x := by
  rintro ⟨e, -, hover, -⟩
  obtain ⟨-, o, ho, -⟩ := Region.overlaps_iff.mp hover
  cases h.symm.trans (Range.exists_contains_iff.mp ⟨o, ho⟩)

variable [ManagedObject Obj] {p : Policy}

/-! ### One search -/

/-- What follows when an object has answered a search. -/
def proceed (p : Policy) (registry : Nat) (who : Requester) (patience : Nat) (entry : Entry)
    (answer : Item × Except Fault Bool) : Doing Obj (Item × Option Error) :=
  match answer.2 with
  | .error fault => return p.report answer.1 .genErr fault
  | .ok true =>
    if who.version = .v1 ∧ answer.1.value.isCounter64 then
      serve p registry who patience { answer.1.setValue .null with region := answer.1.region.past answer.1.oid }
    else return (if answer.1.deferred then answer.1 else answer.1.finish, none)
  | .ok false =>
    let left := { answer.1.setValue .null with region := answer.1.region.above entry.region.toRange }
    if left.region.isEmpty then return (endOfView left, none) else serve p registry who patience left

theorem serve_succ (patience : Nat) (x : Item) : (serve p number who (patience + 1) x : Doing Obj _) =
    (do
      let found ← p.lookUp number who (p.query who x.region false)
      match found.entry with
      | none => return (if found.lock = .timedOut then x.defer else endOfView x, none)
      | some entry =>
        let answer ← callObject .next who entry.object x
        found.release number who entry.object
        proceed p number who patience entry answer) := rfl

namespace Shadows

omit [ManagedObject Obj] in
/-- What touches the requester's own locks alone. -/
theorem of_touches (h : Shadows number who entries held s s') (ht : Touches number who (fun _ => True) s t)
    (hobjects : t.objects = s.objects) : Shadows number who entries held t s' where
  objects := h.objects.trans hobjects.symm
  sound := ht.mine.sound
  locking := (ht.locking number).trans h.locking
  entries := (ht.entries number).trans h.entries
  held object := (ht.mine.withholds_eq h.sound object).trans (h.held object)

omit [ManagedObject Obj] in
theorem later (h : Shadows number who entries held s s') (ht : s.Later t) : Shadows number who entries held t s' := by
  refine h.of_touches (.of_later h.sound ht) ?_
  obtain ⟨now, released, rfl⟩ := ht
  rfl

omit [ManagedObject Obj] in
theorem of_objects (h : Shadows number who entries held s s') (hobjects : t'.objects = s'.objects) :
    Shadows number who entries held s t' := { h with objects := hobjects.trans h.objects }

/-- Objects that are the same answer alike. -/
theorem call (h : Shadows number who entries held s s') (callback : Callback) (object : ObjectId) (item : Item) :
    (s.call callback who object item).1 = (s'.call callback who object item).1 ∧
      Shadows number who entries held (s.call callback who object item).2 (s'.call callback who object item).2 := by
  have hreply : ManagedObject.call callback who item (s'.objects object) =
      ManagedObject.call callback who item (s.objects object) := by rw [h.objects]
  simp only [State.call, hreply, true_and]
  refine ⟨?_, h.sound, h.locking, h.entries, h.held⟩
  simp only [State.setObject, State.enter, State.note, h.objects]

omit [ManagedObject Obj] in
theorem release (h : Shadows number who entries held s s') (f : Finding) (object : ObjectId) :
    (f.release number who object : Doing Obj Unit).Alone (fun _ => True) s
      fun _ t => Shadows number who entries held t s' := by
  unfold Finding.release
  split
  · exact h.of_touches (.unlock h.sound object) (State.objects_eq_of_bare (s.bare_unlock _ _ _))
  · exact h

variable (hordered : Registry.Ordered entries) (hseen : seen.filter (fun e => !held e.object) =
  entries.filter fun e => !held e.object)
include hordered hseen

/-- A look-up among held objects finds what is found where nobody holds any, as long as that is not held. -/
theorem look (h : Shadows number who entries held s s') (hlone : Lone number who seen s') {f' : Finding}
    (hplain : f'.entry = ((s'.registry number).candidates (p.query who x.region false)).find?
      fun e => (p.query who x.region false).accepts (s'.objects e.object))
    (hfree : ∀ e, f'.entry = some e → held e.object = false) :
    (p.lookUp number who (p.query who x.region false)).Alone (fun _ => True) s fun f t =>
      Shadows number who entries held t s' ∧ f.entry = f'.entry ∧
        (f'.entry = none → (f.lock = .timedOut ↔ Blocked entries held x)) := by
  let l : Lookup := ⟨number, p.query who x.region false, some (p.terms who)⟩
  have hlocking : l.locking? s = some (p.terms who) := Lookup.locking?_eq_some.mpr
    ⟨rfl, by rw [Registry.locksFor, h.locking]; rfl⟩
  have hwithheld (e : Entry) : l.withheld s e = held e.object := by
    rw [Lookup.withheld, hlocking]
    exact h.held e.object
  have hcandidates : ((s.registry number).candidates l.query).filter (fun e => !l.withheld s e) =
      ((s'.registry number).candidates l.query).filter fun e => !held e.object := by
    simp only [hwithheld, Registry.candidates_eq_filter, h.entries, hlone.entries]
    rw [List.filter_comm, ← hseen, List.filter_comm]
  have hpicks := Lookup.run_picks (l := l) h.sound (h.entries.symm ▸ hordered) p.patience
  refine (hpicks.and (Lookup.run_alone (l := l) h.sound p.patience)).mono (fun _ _ => trivial) ?_
  rintro f t ⟨hpick, hfound⟩
  have hagree : f.entry = f'.entry := by
    rw [hpick.entry, hcandidates, ← h.objects, hplain]
    exact find?_filter_of_kept fun e he => by simp [hfree e (hplain.trans he)]
  refine ⟨?_, hagree, fun hnone => ?_⟩
  · cases hfound with
    | nothing _ ht => exact h.later ht
    | unlocked _ _ _ _ _ ht => exact h.later ht
    | @locked e terms _ _ _ _ hterms _ _ ht =>
      obtain rfl := Option.some.inj (hlocking.symm.trans hterms)
      have htried := h.of_touches (.tryLock h.sound e.object)
        (State.objects_eq_of_bare (s.bare_tryLock number who.transaction e.object))
      exact htried.later ht
  · rw [hpick.timedOut_iff (hagree.trans hnone), Registry.candidates_eq_filter]
    simp only [Bool.false_eq_true, false_or, hwithheld, List.mem_filter, and_assoc]
    exact h.entries.symm ▸ Iff.rfl

end Shadows

/-- A search that meets no locks calls what it sees. Among held objects it ends alike, as long as it has called none of
these, or it is put off. -/
def Agrees (number : Nat) (who : Requester) (entries seen : List Entry) (held : ObjectId → Bool) (x : Item)
    (before : List Step) (act : Doing Obj (Item × Option Error)) (s' : State Obj) : Prop :=
  act.Ensures (fun _ _ => False) (fun _ => False) s' fun out' t' => ∃ steps, t'.journal = s'.journal ++ steps ∧
    (∀ st ∈ steps, ∃ e ∈ seen, st.object = some e.object) ∧
    ((∀ st ∈ steps, ∀ object, st.object = some object → held object = false) →
      ∀ s, Shadows number who entries held s s' →
        act.Alone (fun _ => True) s fun out _ => Accords entries held x (before ++ steps) out out')

omit [ManagedObject Obj] in
/-- A search that ends at once. -/
theorem agrees_pure {before : List Step} (h : Accords entries held x before out out) :
    Agrees number who entries seen held x before (pure out : Doing Obj _) s' :=
  ⟨[], (List.append_nil _).symm, by simp, fun _ s _ => (List.append_nil before).symm ▸ h⟩

omit [ManagedObject Obj] in
/-- A search that goes on with another item. -/
theorem Agrees.cons {act : Doing Obj (Item × Option Error)} (h : Agrees number who entries seen held y [] act s')
    (hopen : st.Barren → y.complete = false) : Agrees number who entries seen held x [st] act s' := by
  refine Activity.Ensures.mono h (fun _ => id) ?_
  rintro out' t' ⟨steps, hjournal, hcalled, hends⟩
  refine ⟨steps, hjournal, hcalled, fun hfree s hs => ?_⟩
  exact (hends hfree s hs).mono (fun _ => id) fun out t hout => hout.cons hopen

section Search
variable {patience : Nat}
  (ih : ∀ (x : Item) (s' : State Obj), Lone number who seen s' →
    Agrees number who entries seen held x [] (serve p number who patience x) s')
include ih

/-- What follows an answer agrees if the rest of the search does. -/
theorem proceed_agrees (x : Item) (e : Entry) (st : Step) (hlone : Lone number who seen s') :
    Agrees number who entries seen held x [st] (proceed p number who patience e (st.after, st.result)) s' := by
  unfold proceed
  dsimp only
  split
  · next fault hfault =>
    have hst : ¬st.Barren := fun hst => nomatch hfault.symm.trans hst.1
    exact agrees_pure (accords_answered hst _)
  · next htrue =>
    have hst : ¬st.Barren := fun hst => nomatch htrue.symm.trans hst.1
    split
    · exact (ih _ s' hlone).cons fun h => absurd h hst
    · exact agrees_pure (accords_answered hst _)
  · split
    · next hempty => exact agrees_pure (.same _ fun _ _ _ => not_blocked_of_isEmpty hempty)
    · exact (ih _ s' hlone).cons fun hst => hst.2

end Search

section Agreement
variable (hordered : Registry.Ordered entries) (hseen : seen.filter (fun e => !held e.object) =
  entries.filter fun e => !held e.object)
include hordered hseen

/-- A search among held objects agrees with one that meets no locks. -/
theorem serve_agrees (p : Policy) : ∀ (patience : Nat) (x : Item) (s' : State Obj), Lone number who seen s' →
    Agrees number who entries seen held x [] (serve p number who patience x) s'
  | 0, x, s', _ => agrees_pure (.same _ fun hopen _ hcomplete => nomatch hopen.symm.trans hcomplete)
  | patience + 1, x, s', hlone => by
    let l : Lookup := ⟨number, p.query who x.region false, some (p.terms who)⟩
    have hfree : l.Free s' := Lookup.free_of_ownedBy rfl hlone.owned
    rw [Agrees, serve_succ, Activity.ensures_bind]
    refine (Lookup.run_free p.patience hfree).mono (fun _ => id) fun f' t' hplain => ?_
    have hjournal : t'.journal = s'.journal := State.journal_eq_of_bare hplain.bare
    have hlook {s : State Obj} (hs : Shadows number who entries held s s')
        (hheld : ∀ e, f'.entry = some e → held e.object = false) := hs.look hordered hseen hlone hplain.entry hheld
    cases hentry : f'.entry with
    | none =>
      rw [hentry] at hlook
      refine ⟨[], by simp [hjournal], by simp, fun _ s hs => ?_⟩
      rw [Activity.alone_bind]
      refine (hlook hs nofun).mono (fun _ => id) ?_
      rintro f t ⟨-, hnone, hlate⟩
      rw [hnone]
      dsimp only
      rw [if_neg hplain.lock]
      by_cases hblocked : Blocked entries held x
      · rw [if_pos ((hlate rfl).mpr hblocked)]
        exact .late x fun hopen _ => hopen
      · rw [if_neg fun h => hblocked ((hlate rfl).mp h)]
        exact .same _ fun _ _ _ => hblocked
    | some e =>
      let st : Step := ⟨who, .next, some e.object, x, (t'.call .next who e.object x).1.1,
        (t'.call .next who e.object x).1.2⟩
      have he : e ∈ seen := by
        have hmem := List.mem_of_find?_eq_some (hplain.entry.symm.trans hentry)
        exact hlone.entries ▸ (Registry.mem_candidates_iff.mp hmem).1
      have hlone' : Lone number who seen (t'.call .next who e.object x).2 := by
        refine ⟨?_, hplain.ownedBy rfl hlone.owned⟩
        exact (State.entries_eq_of_bare hplain.bare number).trans hlone.entries
      simp only [Activity.ensures_bind, callObject, Activity.ensures_modifyGet]
      refine (f'.release_ensures number who e.object _).mono (fun _ => id) ?_
      rintro ⟨⟩ u' ⟨hbare, howned⟩
      have hlone'' : Lone number who seen u' :=
        ⟨(State.entries_eq_of_bare hbare number).trans hlone'.entries, howned hlone'.owned⟩
      have hentered : u'.journal = s'.journal ++ [st] := by
        rw [State.journal_eq_of_bare hbare, ← hjournal]
        rfl
      have hrest := proceed_agrees (serve_agrees p patience) x e st hlone''
      refine Activity.Ensures.mono hrest (fun _ => id) ?_
      rintro out' v' ⟨steps, hsteps, hcalled, hends⟩
      refine ⟨st :: steps, by rw [hsteps, hentered, List.append_assoc]; rfl,
        List.forall_mem_cons.mpr ⟨⟨e, he, rfl⟩, hcalled⟩, fun hspared s hs => ?_⟩
      obtain ⟨hst, hspared⟩ := List.forall_mem_cons.mp hspared
      rw [hentry] at hlook
      rw [Activity.alone_bind]
      refine (hlook hs fun e' he' => Option.some.inj he' ▸ hst e.object rfl).mono (fun _ => id) ?_
      rintro f t ⟨ht, hsome, -⟩
      rw [hsome]
      have ht' : Shadows number who entries held t t' := ht.of_objects (State.objects_eq_of_bare hplain.bare)
      obtain ⟨hanswer, hcalled⟩ := ht'.call .next e.object x
      simp only [Activity.alone_bind, Activity.alone_modifyGet, hanswer]
      refine ((hcalled.of_objects (State.objects_eq_of_bare hbare)).release f e.object).mono (fun _ => id) ?_
      intro _ u hu
      exact hends hspared u hu

end Agreement

/-! ### What becomes of an item -/

/-- How an item fares that is searched for in a state where others may hold objects. Completed, it is what the search
comes to in as many laps without the objects that others hold, which is what it comes to without any locks unless it is
led to one of those. If nothing else has anything for it, and one of them is registered for what is left of its region,
it is put off. -/
structure Fares (p : Policy) (number : Nat) (who : Requester) (s : State Obj) (x y : Item) : Prop where
  apart : ∃ z error t, serve p number who (bound p number who x s) x (s.openTo number who.transaction) =
      .done (z, error) t ∧
    (y.complete = true → y.deferred = false → y = z) ∧
    ((∀ st ∈ t.journal.drop s.journal.length, st.Barren) → z.complete = true →
      Blocked (s.registry number).entries (s.withholds number who.transaction) z →
        y.complete = false ∧ y.deferred = true)
  alike : ∃ z error t, search p number who x (s.unlocked number) = .done (z, error) t ∧
    ((∀ st ∈ t.journal.drop s.journal.length, ∀ object, st.object = some object →
        s.withholds number who.transaction object = false) →
      y.complete = true → y.deferred = false → y = z)

theorem Accords.eq_of_complete (h : Accords entries held x steps out out') (hcomplete : out.1.complete = true)
    (hdeferred : out.1.deferred = false) : out.1 = out'.1 := by
  cases h with
  | same => rfl
  | late => cases hdeferred

theorem Accords.put_off (h : Accords entries held x steps out out') (hx : x.complete = false)
    (hbarren : ∀ st ∈ steps, st.Barren) (hcomplete : out'.1.complete = true) (hblocked : Blocked entries held out'.1) :
    out.1.complete = false ∧ out.1.deferred = true := by
  cases h with
  | same out hleft => exact absurd hblocked (hleft hx hbarren hcomplete)
  | late y hopen => exact ⟨hopen hx hbarren, rfl⟩

section Alone
variable (hsound : (s.registry number).locks.Sound) (hordered : Registry.Ordered (s.registry number).entries)
  (hlocking : (s.registry number).locking = .always)
include hsound hordered hlocking

/-- A search of a registry that always locks, next to one that meets no locks there. -/
theorem alone_of_lone (hlone : Lone number who seen s') (hobjects : s'.objects = s.objects)
    (hjournal : s'.journal = s.journal) (hseen : seen.filter (fun e => !s.withholds number who.transaction e.object) =
      (s.registry number).entries.filter fun e => !s.withholds number who.transaction e.object)
    (laps : Nat) (x : Item) : ∃ z error t, serve p number who laps x s' = .done (z, error) t ∧
      (∀ st ∈ t.journal.drop s.journal.length, ∃ e ∈ seen, st.object = some e.object) ∧
      ((∀ st ∈ t.journal.drop s.journal.length, ∀ object, st.object = some object →
        s.withholds number who.transaction object = false) →
        (serve p number who laps x).Alone (fun _ => True) s fun out _ =>
          Accords (s.registry number).entries (s.withholds number who.transaction) x
            (t.journal.drop s.journal.length) out (z, error)) := by
  have hshadows : Shadows number who (s.registry number).entries
      (s.withholds number who.transaction) s s' := ⟨hobjects, hsound, hlocking, rfl, fun _ => rfl⟩
  obtain ⟨⟨z, error⟩, t, hdone, steps, hsteps, hcalled, hends⟩ :=
    (serve_agrees hordered hseen p laps x s' hlone).done
  refine ⟨z, error, t, hdone, ?_⟩
  rw [hsteps, hjournal, List.drop_left]
  exact ⟨hcalled, fun hspared => hends hspared s hshadows⟩

/-- What a search that goes on alone comes to in a registry that always locks. -/
theorem fares_of_alone (hx : x.complete = false) :
    (search p number who x).Alone (fun _ => True) s fun out _ => Fares p number who s x out.1 := by
  have hlength : number < s.registries.length := by
    refine Nat.lt_of_not_le fun hge => ?_
    rw [State.registry, List.getD_eq_getElem?_getD, List.getElem?_eq_none hge] at hlocking
    cases congrFun (congrFun hlocking who.transaction) { region := x.region, writes := false }
  have hnobody : ({} : Locks).OwnedBy who.transaction := by simp [Locks.OwnedBy]
  have hopen : Lone number who ((s.registry number).entries.filter fun e =>
      !s.withholds number who.transaction e.object) (s.openTo number who.transaction) := by
    constructor <;> rw [State.openTo, State.registry_setRegistry hlength]
    exact hnobody
  have hunlocked : Lone number who (s.registry number).entries (s.unlocked number) := by
    constructor <;> rw [State.unlocked, State.setLocks, State.registry_setRegistry hlength]
    exact hnobody
  have hbound : bound p number who x (s.unlocked number) = bound p number who x s := by
    rw [bound, State.unlocked, State.setLocks, State.registry_setRegistry hlength]
    rfl
  obtain ⟨z, error, t, hdone, hcalled, hends⟩ := alone_of_lone hsound hordered hlocking hopen rfl rfl
    (by simp [List.filter_filter]) (bound p number who x s) x
  obtain ⟨z', error', t', hdone', -, hends'⟩ := alone_of_lone hsound hordered hlocking hunlocked rfl rfl rfl
    (bound p number who x (s.unlocked number)) x
  rw [hbound] at hends'
  -- The objects that others hold are not there to be called.
  have happart := hends fun st hst object hobject => by
    obtain ⟨e, he, hcall⟩ := hcalled st hst
    obtain rfl := Option.some.inj (hcall.symm.trans hobject)
    simpa using (List.mem_filter.mp he).2
  have halike : (serve p number who (bound p number who x s) x).Alone (fun _ => True) s fun out _ =>
      (∀ st ∈ t'.journal.drop s.journal.length, ∀ object, st.object = some object →
        s.withholds number who.transaction object = false) →
        out.1.complete = true → out.1.deferred = false → out.1 = z' := by
    by_cases hspared : ∀ st ∈ t'.journal.drop s.journal.length, ∀ object, st.object = some object →
        s.withholds number who.transaction object = false
    · exact (hends' hspared).mono (fun _ => id) fun out _ hout _ => hout.eq_of_complete
    · exact happart.mono (fun _ => id) fun _ _ _ h => absurd h hspared
  refine (happart.and halike).mono (fun _ _ => trivial) ?_
  rintro out _ ⟨hout, hsame⟩
  exact ⟨⟨z, error, t, hdone, hout.eq_of_complete, hout.put_off hx⟩, z', error', t', hdone', hsame⟩

end Alone
end Next
end Responder
