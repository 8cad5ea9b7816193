import Responder.Proofs.Custody.Contention
import Responder.Proofs.Lookup.Scan

/-! What a look-up does to locks. On its way it may take and release any number of them, and wait in vain for those of
    others. If nobody else does anything, in the end it has taken one lock once or none at all, and what it says of
    its locking tells which (`Lookup.run_accounts`). -/

namespace Responder.Lookup

open Registry

variable {Obj : Type} {l : Lookup} {s t : State Obj} {owner : TransactionId} {f : Finding}

/-- What a look-up has done to locks, and what it says of it. -/
structure Accounts (l : Lookup) (s : State Obj) (owner : TransactionId) (f : Finding) (t : State Obj) : Prop where
  /-- What was found is locked once more, if locks are needed. The status tells whether an earlier lock could not
  be had. -/
  locked : ∀ e, f.entry = some e → (s.registry l.registry).locksFor owner l.query = true →
    (t.registry l.registry).locks.count owner e.object = (s.registry l.registry).locks.count owner e.object + 1 ∧
    (∀ o ≠ e.object, (t.registry l.registry).locks.hold? o = (s.registry l.registry).locks.hold? o) ∧
    (f.lock = .locked ∨ f.lock = .lockedAfterTimeout) ∧
    (f.lock = .lockedAfterTimeout ↔
      ∃ e', l.Eligible s e' ∧ Region.order e'.region e.region = .lt ∧ s.withholds l.registry owner e'.object = true)
  unlocked : ∀ e, f.entry = some e → (s.registry l.registry).locksFor owner l.query = false →
    (t.registry l.registry).locks = (s.registry l.registry).locks ∧ f.lock = .notRequired
  nothing : f.entry = none → (t.registry l.registry).locks = (s.registry l.registry).locks ∧
    (f.lock = .timedOut ∨ f.lock = .notRequired) ∧
    (f.lock = .timedOut ↔ (s.registry l.registry).locksFor owner l.query = true ∧
      ∃ e, l.Eligible s e ∧ s.withholds l.registry owner e.object = true)
  /-- Nothing else changes. -/
  frame : (s.setLocks l.registry (t.registry l.registry).locks).Later t

/-- A look-up that leaves the locks as they were. -/
theorem frame_of_later (h : s.Later t) : (t.registry l.registry).locks = (s.registry l.registry).locks ∧
    (s.setLocks l.registry (t.registry l.registry).locks).Later t := by
  rw [h.registry, s.setLocks_self]
  exact ⟨rfl, h⟩

theorem locking?_of_terms {terms : LockTerms} (hterms : l.terms = some terms) : l.locking? s =
    if (s.registry l.registry).locksFor terms.owner l.query = true then some terms else none := by
  rw [locking?, hterms, Option.filter_some]

theorem withheld_iff {terms : LockTerms} (hterms : l.terms = some terms) {e : Entry} : l.withheld s e = true ↔
    (s.registry l.registry).locksFor terms.owner l.query = true ∧
      s.withholds l.registry terms.owner e.object = true := by
  rw [withheld, locking?_of_terms hterms]
  split <;> simp_all

theorem eligible_iff {e : Entry} : l.Eligible s e ↔ e ∈ (s.registry l.registry).candidates l.query :=
  mem_candidates_iff.symm

/-- The lock of what was found has been taken once more, and no other one has changed. -/
theorem Found.locked_count (hs : (s.registry l.registry).locks.Sound) (h : l.Found s f t) {terms : LockTerms}
    (hterms : l.locking? s = some terms) {e : Entry} (he : f.entry = some e) :
    (t.registry l.registry).locks.count terms.owner e.object =
        (s.registry l.registry).locks.count terms.owner e.object + 1 ∧
      (∀ o ≠ e.object, (t.registry l.registry).locks.hold? o = (s.registry l.registry).locks.hold? o) ∧
      (s.setLocks l.registry (t.registry l.registry).locks).Later t := by
  cases h with
  | nothing hnone => cases hnone.symm.trans he
  | unlocked _ _ _ hfree => cases hfree.symm.trans hterms
  | locked hmem _ hentry hlocking _ htaken hlater =>
    cases hentry.symm.trans he
    cases hlocking.symm.trans hterms
    unfold State.tryLock at htaken hlater
    cases htake : (s.registry l.registry).locks.take? terms.owner e.object with
    | none => simp [htake] at htaken
    | some locks =>
      rw [htake] at hlater
      have hlocks : (t.registry l.registry).locks = locks := by
        rw [hlater.registry, State.registry_setLocks, if_pos ⟨rfl, State.lt_length_of_mem hmem⟩]
      rw [hlocks]
      refine ⟨?_, fun o ho => hs.hold?_take? htake ho, hlater⟩
      rw [(hs.take? htake).2.1, if_pos rfl]

theorem Found.later_of_unlocked (h : l.Found s f t) (hlocking : l.locking? s = none) : s.Later t := by
  cases h with
  | nothing _ hlater => exact hlater
  | unlocked _ _ _ _ _ hlater => exact hlater
  | locked _ _ _ hterms => cases hlocking.symm.trans hterms

theorem Found.later_of_nothing (h : l.Found s f t) (hnone : f.entry = none) : s.Later t := by
  cases h with
  | nothing _ hlater => exact hlater
  | unlocked _ _ hentry => cases hnone.symm.trans hentry
  | locked _ _ hentry => cases hnone.symm.trans hentry

variable [ManagedObject Obj]

/-- A look-up has been late just if somebody else holds an entry that stands before the one found. -/
theorem Picks.late_iff {entries : List Entry} (h : l.Picks s entries false f) {e : Entry} (he : f.entry = some e)
    (hsorted : entries.Pairwise fun a b => Region.order a.region b.region = .lt) :
    (entries.takeWhile (l.passes s)).any (l.withheld s) = true ↔
      ∃ e' ∈ entries, Region.order e'.region e.region = .lt ∧ l.withheld s e' = true := by
  obtain ⟨hstop, before, after, rfl, hbefore⟩ := List.find?_eq_some_iff_append.mp (h.entry_eq_find?.symm.trans he)
  obtain ⟨-, hbehind, hahead⟩ := List.pairwise_append.mp hsorted
  have htaken : (before ++ e :: after).takeWhile (l.passes s) = before := by
    rw [List.takeWhile_append_of_pos fun x hx => by simpa using hbefore x hx,
      List.takeWhile_cons_of_neg (by simpa using hstop), List.append_nil]
  rw [htaken, List.any_eq_true]
  constructor
  · rintro ⟨e', he', hheld⟩
    exact ⟨e', List.mem_append_left _ he', hahead e' he' e List.mem_cons_self, hheld⟩
  · rintro ⟨e', he', hlt, hheld⟩
    refine ⟨e', (List.mem_append.mp he').resolve_right fun hmem => ?_, hheld⟩
    rcases List.mem_cons.mp hmem with rfl | hafter
    · cases Std.ReflCmp.compare_self.symm.trans hlt
    · have hgt := (List.pairwise_cons.mp hbehind).1 e' hafter
      cases hgt.symm.trans (Std.OrientedCmp.gt_of_lt hlt)

/-- The account of a look-up that has found what it should, with the locks that it should. -/
theorem accounts_of_picks {terms : LockTerms} (hterms : l.terms = some terms)
    (hordered : Ordered (s.registry l.registry).entries) (hs : (s.registry l.registry).locks.Sound)
    (hpicks : l.Picks s ((s.registry l.registry).candidates l.query) false f) (hfound : l.Found s f t) :
    l.Accounts s terms.owner f t := by
  have hsome (hneeded : (s.registry l.registry).locksFor terms.owner l.query = true) : l.locking? s = some terms := by
    rw [locking?_of_terms hterms, if_pos hneeded]
  have hnone (hfree : (s.registry l.registry).locksFor terms.owner l.query = false) : l.locking? s = none := by
    rw [locking?_of_terms hterms, if_neg (Bool.eq_false_iff.mp hfree)]
  refine ⟨fun e he hneeded => ?_, fun e he hfree => ?_, fun hentry => ?_, ?_⟩
  · obtain ⟨hcount, hothers, -⟩ := hfound.locked_count hs (hsome hneeded) he
    have hlock : f.lock = heldStatus
        (((s.registry l.registry).candidates l.query).takeWhile (l.passes s) |>.any (l.withheld s)) := by
      rw [hpicks.lock, he, verdict, hsome hneeded, Bool.false_or]
      exact if_pos rfl
    refine ⟨hcount, hothers, hlock ▸ heldStatus_cases _, ?_⟩
    rw [hlock, late_of_heldStatus, hpicks.late_iff he (hordered.candidates l.query)]
    simp only [withheld_iff hterms, hneeded, true_and, eligible_iff]
  · have hlater := hfound.later_of_unlocked (hnone hfree)
    refine ⟨(frame_of_later hlater).1, ?_⟩
    rw [hpicks.lock, he, verdict, hnone hfree]
    rfl
  · refine ⟨(frame_of_later (hfound.later_of_nothing hentry)).1, ?_, ?_⟩
    · rw [hpicks.lock, hentry]
      exact nothing_cases _
    · rw [hpicks.timedOut_iff hentry]
      simp only [withheld_iff hterms, eligible_iff, Bool.false_eq_true, false_or]
      constructor
      · rintro ⟨e, he, hneeded, hheld⟩
        exact ⟨hneeded, e, he, hheld⟩
      · rintro ⟨hneeded, e, he, hheld⟩
        exact ⟨e, he, hneeded, hheld⟩
  · cases hlocking : l.locking? s with
    | none => exact (frame_of_later (hfound.later_of_unlocked hlocking)).2
    | some terms =>
      cases hentry : f.entry with
      | none => exact (frame_of_later (hfound.later_of_nothing hentry)).2
      | some e => exact (hfound.locked_count hs hlocking hentry).2.2

/-- A look-up that locks on the terms of some transaction, in a registry that any calls have led to and with any locks
taken: if nobody else does anything while it waits, it comes to an end, and whatever end that is, it gives an account of
the locks. -/
theorem run_accounts {contexts : List ContextName} {locks : Locks} {locking : Locking} {calls : List Call}
    (hentries : (s.registry l.registry).entries = (performAll { contexts, locks, locking } calls).entries)
    (hs : (s.registry l.registry).locks.Sound) {terms : LockTerms} (hterms : l.terms = some terms) (patience : Nat) :
    (∃ f t, (l.run patience s).Comes f t) ∧
      ∀ f t, (l.run patience s).Comes f t → l.Accounts s terms.owner f t := by
  have hordered : Ordered (s.registry l.registry).entries := hentries ▸ ordered_of_calls contexts locks locking calls
  refine ⟨Progress.exists_comes _, fun f t hcomes => ?_⟩
  obtain ⟨hpicks, hfound⟩ := ((run_picks hs hordered patience).and (run_alone hs patience)).of_comes hcomes
  exact accounts_of_picks hterms hordered hs hpicks hfound

/-- Three tables of which the second one is empty. Somebody else has locked the first one, and the transaction that
searches has locked the second one twice and the last one once. -/
def chest : State Table where
  objects id := if id.number = 2 then ⟨⟨[2]⟩, .readOnly, .empty⟩ else drawer 5
  registries := [{ performAll {} racking with
    locks := ⟨[⟨⟨1⟩, ⟨9⟩, 1⟩, ⟨⟨2⟩, ⟨0⟩, 2⟩, ⟨⟨5⟩, ⟨0⟩, 1⟩]⟩
    locking := .always }]
  outstanding := ⟨.seconds 300, []⟩

/-- A search in the default context, among all variables. -/
def chestSearch : Lookup :=
  ⟨0, { region := (Region.after .empty).inContext (some []), writes := false }, some ⟨⟨0⟩, .seconds 5⟩⟩

/-- The lock of the first table cannot be had, that of the second one is released again, and that of the last one is
taken once more. -/
theorem chestSearch_accounts : ∃ f t, (chestSearch.run 1 chest).Comes f t ∧
    f = ⟨some ⟨.subtree ⟨[5]⟩, ⟨5⟩⟩, .lockedAfterTimeout⟩ ∧
    (t.registry 0).locks.count ⟨0⟩ ⟨5⟩ = 2 ∧ (t.registry 0).locks.hold? ⟨2⟩ = some ⟨⟨2⟩, ⟨0⟩, 2⟩ := by
  have hentries : (chest.registry chestSearch.registry).entries = (performAll {} racking).entries := rfl
  have hs : (chest.registry chestSearch.registry).locks.Sound := ⟨by decide, by decide⟩
  obtain ⟨⟨⟨found, lock⟩, t, hcomes⟩, haccounts⟩ := run_accounts hentries hs rfl 1
  obtain ⟨hlocked, -, -, -⟩ := haccounts _ t hcomes
  have hordered : Ordered (chest.registry chestSearch.registry).entries :=
    hentries ▸ ordered_of_calls [] {} .writes racking
  obtain ⟨hfound, hlock⟩ := (run_picks hs hordered 1).of_comes hcomes
  obtain rfl : found = some ⟨.subtree ⟨[5]⟩, ⟨5⟩⟩ := hfound
  obtain rfl : lock = .lockedAfterTimeout := hlock
  obtain ⟨hcount, hothers, -, -⟩ := hlocked _ rfl rfl
  exact ⟨_, t, hcomes, rfl, hcount, hothers ⟨2⟩ (by decide)⟩

end Responder.Lookup
