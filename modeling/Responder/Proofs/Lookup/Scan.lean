import Responder.Object.Table
import Responder.Proofs.Lookup
import Responder.Proofs.Registration

/-! Look-ups against a plain scan. A look-up passes over the entries that end too early, and looks at no more than
    those that overlap its region; one that takes no locks finds what a scan of all the entries would find, in
    their order (`Lookup.run_scans`). As the entries that one context sees follow each other just as their
    identifiers do, nothing else that suits the query has an identifier below those of the entry that is found. -/

namespace Responder.Lookup

open Registry

variable {Obj : Type} [ManagedObject Obj] {s : State Obj} {l : Lookup} {e e' : Entry} {entries : List Entry}
  {found : Option Entry}

/-- An entry suits a look-up: some context sees both of their regions, which share an identifier, and its object can
serve the query. -/
def Suits (l : Lookup) (s : State Obj) (e : Entry) : Prop :=
  Shared l.query.region.context e.region.context ∧
    (∃ o, l.query.region.contains o = true ∧ e.region.contains o = true) ∧
      l.query.accepts (s.objects e.object) = true

theorem suits_iff : l.Suits s e ↔
    (l.query.region.overlaps e.region && l.query.accepts (s.objects e.object)) = true := by
  rw [Suits, Bool.and_eq_true, Region.overlaps_iff, contextsMatch_iff, and_assoc]

/-- What a scan of entries finds is the first of them that suits the look-up. -/
structure Scans (l : Lookup) (s : State Obj) (entries : List Entry) (found : Option Entry) : Prop where
  first : ∀ e, found = some e ↔
    l.Suits s e ∧ ∃ before after, entries = before ++ e :: after ∧ ∀ e' ∈ before, ¬l.Suits s e'
  nothing : found = none ↔ ∀ e ∈ entries, ¬l.Suits s e

theorem scans_find? (entries : List Entry) : l.Scans s entries
    (entries.find? fun e => l.query.region.overlaps e.region && l.query.accepts (s.objects e.object)) where
  first e := by
    simp only [List.find?_eq_some_iff_append, Bool.not_eq_true', ← Bool.not_eq_true, ← suits_iff]
  nothing := by
    simp only [List.find?_eq_none, ← suits_iff]

/-- The candidates are all that a scan could find. -/
theorem find?_candidates (r : Registry) (objects : ObjectId → Obj) :
    (r.candidates l.query).find? (fun e => l.query.accepts (objects e.object)) =
      r.entries.find? fun e => l.query.region.overlaps e.region && l.query.accepts (objects e.object) := by
  rw [candidates_eq_filter, List.find?_filter]
  simp only [Bool.decide_and, Bool.decide_eq_true]

/-- What suits a look-up stands behind the entry that is found. -/
theorem Scans.order_lt (h : l.Scans s entries found) (hentries : Ordered entries) (hfound : found = some e)
    (he' : e' ∈ entries) (hne : e' ≠ e) (hsuits : l.Suits s e') : Region.order e.region e'.region = .lt := by
  obtain ⟨-, before, after, rfl, hbefore⟩ := (h.first e).mp hfound
  have hbehind : e' ∈ after := by
    rcases List.mem_append.mp he' with hmem | hmem
    · exact absurd hsuits (hbefore e' hmem)
    · exact (List.mem_cons.mp hmem).resolve_left hne
  exact (List.pairwise_cons.mp (List.pairwise_append.mp hentries.sorted).2.1).1 e' hbehind

theorem Suits.seenIn {c : ContextName} (h : l.Suits s e) (hc : l.query.region.context = some c) :
    e.region.seenIn c = true := contextsMatch_iff.mpr (hc ▸ h.1)

/-- In a registry that any calls have led to, a look-up that takes no locks ends without a wait and with nothing
changed. It has found the first of all the entries that suits it, or none if there is none. Whatever else suits it
stands behind that entry in the order of regions; and if the query is for one context, each of its identifiers is above
all those of the entry that was found. -/
theorem run_scans {contexts : List ContextName} {locks : Locks} {locking : Locking} {calls : List Call}
    (hentries : (s.registry l.registry).entries = (performAll { contexts, locks, locking } calls).entries)
    (hlocking : l.locking? s = none) (patience : Nat) :
    ∃ f, l.run patience s = .done f s ∧ f.lock = .notRequired ∧
      l.Scans s (s.registry l.registry).entries f.entry ∧
      ∀ e, f.entry = some e → ∀ e' ∈ (s.registry l.registry).entries, e' ≠ e → l.Suits s e' →
        Region.order e.region e'.region = .lt ∧
        ∀ c, l.query.region.context = some c →
          ∀ x y, e.region.contains x = true → e'.region.contains y = true → x < y := by
  have hordered : Ordered (s.registry l.registry).entries := hentries ▸ ordered_of_calls contexts locks locking calls
  have hfree : l.Free s := fun terms hterms => nomatch hlocking.symm.trans hterms
  have hends : (l.run patience).Ensures (fun _ _ => True) (fun _ => False) s
      (l.Plain ((s.registry l.registry).candidates l.query) s) := run_free patience hfree
  obtain ⟨f, t, hrun, hplain⟩ := hends.done
  obtain ⟨rfl, hlock⟩ := hplain.unlocked hlocking
  have hscans : l.Scans t (t.registry l.registry).entries f.entry := by
    rw [hplain.entry, find?_candidates]
    exact scans_find? _
  refine ⟨f, hrun, hlock, hscans, fun e hfound e' he' hne hsuits => ?_⟩
  have hlt := hscans.order_lt hordered hfound he' hne hsuits
  refine ⟨hlt, fun c hc x y hx hy => ?_⟩
  obtain ⟨hmine, before, after, hsplit, -⟩ := (hscans.first e).mp hfound
  have he : e ∈ (t.registry l.registry).entries := hsplit ▸ List.mem_append_right _ List.mem_cons_self
  exact hordered.lt_of_order he he' hlt (hmine.seenIn hc) (hsuits.seenIn hc) hx hy

/-- A table with a variable. -/
def drawer (arc : UInt32) : Table := ⟨⟨[arc]⟩, .readOnly, ⟨[(⟨[arc, 1]⟩, .integer 7)]⟩⟩

/-- One table is put in a context of its own, and another one is taken back. -/
def racking : List Call := [
  .register ⟨4⟩ (.subtree ⟨[4]⟩) none, .register ⟨1⟩ (.subtree ⟨[1]⟩) none, .register ⟨2⟩ (.subtree ⟨[2]⟩) none,
  .register ⟨3⟩ (.subtree ⟨[3]⟩) (some [97]), .register ⟨5⟩ (.subtree ⟨[5]⟩) none, .unregister ⟨4⟩ none]

def rack : State Table where
  objects id := drawer (if id.number = 2 then 2 else 5)
  registries := [performAll {} racking]
  outstanding := ⟨.seconds 300, []⟩

/-- A search in the default context, past the variable of the second table. -/
def rackSearch : Lookup := ⟨0, { region := (Region.after ⟨[2, 1]⟩).inContext (some []), writes := false }, none⟩

/-- The second table has nothing more, the third one is in another context, and the fourth one is gone. -/
theorem rackSearch_scans : ∃ f, rackSearch.run 1 rack = .done f rack ∧ f.entry = some ⟨.subtree ⟨[5]⟩, ⟨5⟩⟩ ∧
    rackSearch.Scans rack (performAll {} racking).entries f.entry := by
  have hrun : rackSearch.run 1 rack = .done ⟨some ⟨.subtree ⟨[5]⟩, ⟨5⟩⟩, .notRequired⟩ rack := rfl
  have hentries : (rack.registry rackSearch.registry).entries = (performAll {} racking).entries := rfl
  obtain ⟨f, hdone, -, hscans, -⟩ := run_scans hentries rfl 1
  cases hrun.symm.trans hdone
  exact ⟨_, hrun, rfl, hscans⟩

end Responder.Lookup
