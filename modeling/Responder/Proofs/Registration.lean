import Responder.Proofs.Registry

/-! Sequences of registrations. Whatever is registered and taken back, in whatever order, the regions that one context
    can see stay apart, and a region is turned away just if it would share an identifier with one of them
    (`apart_of_calls`). -/

namespace Responder.Registry

/-- What is asked of a registry. -/
inductive Call where
  | register (object : ObjectId) (region : Region) (context : Option ContextName)
  | unregister (object : ObjectId) (context : Option ContextName)
deriving DecidableEq

/-- The outcome of a call, and what becomes of the registry. A call that is turned away changes nothing. -/
def Call.perform (r : Registry) : Call → Except Error (Option ObjectId) × Registry
  | register object region context =>
    match r.register object region context with
    | .ok r' => (.ok none, r')
    | .error error => (.error error, r)
  | unregister object context => (.ok (r.unregister object context).1, (r.unregister object context).2)

/-- The registry after a sequence of calls, the first one first. -/
def performAll (r : Registry) (calls : List Call) : Registry := calls.foldl (fun r call => (call.perform r).2) r

/-- Two contexts can see the same variables: they are equal, or one of them stands for all. -/
def Shared (a b : Option ContextName) : Prop := a = b ∨ a = none ∨ b = none

variable {r : Registry} {object : ObjectId} {region : Region} {name : Option ContextName}

theorem contextsMatch_iff {a b : Option ContextName} : Region.contextsMatch a b = true ↔ Shared a b := by
  cases a <;> cases b <;> simp [Region.contextsMatch, Shared]

theorem overlaps_eq_false_iff {a b : Region} : a.overlaps b = false ↔
    (Shared a.context b.context → ∀ o, ¬(a.contains o = true ∧ b.contains o = true)) := by
  rw [← Bool.not_eq_true, Region.overlaps_iff, contextsMatch_iff, not_and, not_exists]

/-- The empty name stands for all contexts, just as no name does. -/
theorem shared_contextOf {context : Option ContextName} :
    Shared context (contextOf name) ↔ name = none ∨ name = some [] ∨ Shared context name := by
  rcases name with _ | _ | ⟨c, rest⟩ <;> simp [contextOf, Shared, Option.filter]

theorem mem_insertEntry_self {entries : List Entry} {e : Entry} : e ∈ insertEntry entries e :=
  List.mem_append_right _ List.mem_cons_self

theorem exists_register_iff : (∃ r', r.register object region name = .ok r') ↔
    ∀ e ∈ r.entries, e.region.overlaps (region.inContext (contextOf name)) = false := by
  constructor
  · rintro ⟨r', hr'⟩
    exact (entries_register hr').1
  · intro hfree
    rw [register, conflict?_eq_none_iff.mpr hfree]
    exact ⟨_, rfl⟩

theorem error_of_register {error : Error} (h : r.register object region name = .error error) :
    error = .overlap (region.inContext (contextOf name)) := by
  unfold register at h
  dsimp only at h
  split at h
  · cases h
    rfl
  · cases h

theorem Ordered.perform (h : Ordered r.entries) (call : Call) : Ordered (call.perform r).2.entries := by
  cases call with
  | register object region context =>
    simp only [Call.perform]
    split
    · next r' hr' =>
      obtain ⟨hfree, hentries⟩ := entries_register hr'
      exact hentries ▸ h.insertEntry hfree
    · exact h
  | unregister object context => exact h.sublist (r.entries_unregister object context)

theorem Ordered.performAll (h : Ordered r.entries) (calls : List Call) : Ordered (r.performAll calls).entries := by
  induction calls generalizing r with
  | nil => exact h
  | cons call calls ih => exact ih (h.perform call)

theorem ordered_of_calls (contexts : List ContextName) (locks : Locks) (locking : Locking) (calls : List Call) :
    Ordered (performAll { contexts, locks, locking } calls).entries := Ordered.performAll ⟨.nil, .nil⟩ calls

/-- After any calls on an empty registry, of two entries that are seen in one context none shares an identifier with
the other one. A region is registered just if it shares none with an entry that is seen in its context; otherwise it is
reported as overlapping, and nothing changes. -/
theorem apart_of_calls (contexts : List ContextName) (locks : Locks) (locking : Locking) (calls : List Call) :
    let r := performAll { contexts, locks, locking } calls
    (r.entries.Pairwise fun a b =>
      Shared a.region.context b.region.context → ∀ o, ¬(a.region.contains o = true ∧ b.region.contains o = true)) ∧
    ∀ object region name,
      ((∃ r', r.register object region name = .ok r') ↔
        ∀ e ∈ r.entries, name = none ∨ name = some [] ∨ Shared e.region.context name →
          ∀ o, ¬(e.region.contains o = true ∧ region.contains o = true)) ∧
      (∀ r', r.register object region name = .ok r' → ⟨region.inContext (contextOf name), object⟩ ∈ r'.entries) ∧
      ∀ error, r.register object region name = .error error →
        error = .overlap (region.inContext (contextOf name)) ∧
          (Call.register object region name).perform r = (.error error, r) := by
  intro r
  have hempty : Ordered ({ contexts, locks, locking } : Registry).entries := ⟨.nil, .nil⟩
  refine ⟨(hempty.performAll calls).apart.imp fun h => overlaps_eq_false_iff.mp h, ?_⟩
  intro object region name
  refine ⟨?_, fun r' hr' => ?_, fun error herror => ⟨error_of_register herror, ?_⟩⟩
  · rw [exists_register_iff]
    refine forall₂_congr fun e _ => ?_
    rw [overlaps_eq_false_iff, ← shared_contextOf]
    rfl
  · rw [(entries_register hr').2]
    exact mem_insertEntry_self
  · rw [Call.perform, herror]

end Responder.Registry
