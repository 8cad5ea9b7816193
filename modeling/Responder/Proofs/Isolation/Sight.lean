import Responder.Agent.Drive
import Responder.Proofs.Registry
import Responder.Proofs.Lookup

/-! What a context sees of a registry: the entries of its own and those that are registered for all contexts. A query
    in a context comes to the same candidates whether the other entries are there or not, although they stand among
    them (`Registry.candidates_seenBy`, `Registry.candidatesAfter_seenBy`); and nothing that is done to locks, items or
    objects has to do with them. -/

namespace Responder

namespace Registry

variable {r : Registry} {q : Query} {c : ContextName}

/-- The registry as a context sees it: without the entries of other contexts, and without its index. -/
def seenBy (r : Registry) (c : ContextName) : Registry :=
  { r with entries := r.entries.filter fun e => e.region.seenIn c, regions := [] }

theorem seenIn_of_overlaps {e : Entry} (hq : q.region.context = some c) (h : q.region.overlaps e.region = true) :
    e.region.seenIn c = true := by
  rw [Region.overlaps, hq, Bool.and_eq_true] at h
  exact h.1

theorem candidates_seenBy (hq : q.region.context = some c) : (r.seenBy c).candidates q = r.candidates q := by
  rw [candidates_eq_filter, candidates_eq_filter, seenBy, List.filter_filter]
  refine List.filter_congr fun e _ => ?_
  cases hover : q.region.overlaps e.region
  · rfl
  · rw [seenIn_of_overlaps hq hover]
    rfl

theorem candidatesAfter_seenBy (h : Ordered r.entries) (hq : q.region.context = some c) (seen : Region) :
    (r.seenBy c).candidatesAfter q seen = r.candidatesAfter q seen := by
  have hfiltered : Ordered (r.seenBy c).entries := h.sublist List.filter_sublist
  rw [candidatesAfter_eq_filter h, candidatesAfter_eq_filter hfiltered, seenBy]
  simp only [List.filter_filter]
  refine List.filter_congr fun e _ => ?_
  cases hover : q.region.overlaps e.region
  · rfl
  · rw [seenIn_of_overlaps hq hover, Bool.and_true]

end Registry

namespace State

variable {Obj : Type} (s : State Obj) (c : ContextName) (number : Nat) (owner : TransactionId) (object : ObjectId)

/-- The state as a context sees it. -/
def seenBy : State Obj := { s with registries := s.registries.map fun r => r.seenBy c }

@[simp] theorem registry_seenBy : (s.seenBy c).registry number = (s.registry number).seenBy c := by
  simp only [registry, seenBy, List.getD_eq_getElem?_getD, List.getElem?_map]
  cases s.registries[number]? <;> rfl

@[simp] theorem seenBy_setLocks (locks : Locks) :
    (s.seenBy c).setLocks number locks = (s.setLocks number locks).seenBy c := by
  simp only [setLocks, setRegistry, registry_seenBy]
  rw [seenBy, seenBy, List.map_set]
  rfl

theorem tryLock_seenBy : (s.seenBy c).tryLock number owner object =
    ((s.tryLock number owner object).1, (s.tryLock number owner object).2.seenBy c) := by
  have hlocks : ((s.seenBy c).registry number).locks = (s.registry number).locks := by
    rw [registry_seenBy]
    rfl
  unfold tryLock
  rw [hlocks]
  split
  · rw [seenBy_setLocks]
  · rfl

theorem unlock_seenBy : (s.seenBy c).unlock number owner object =
    ((s.unlock number owner object).1, (s.unlock number owner object).2.seenBy c) := by
  have hlocks : ((s.seenBy c).registry number).locks = (s.registry number).locks := by
    rw [registry_seenBy]
    rfl
  unfold unlock
  rw [hlocks]
  split
  · dsimp only
    rw [seenBy_setLocks]
    split <;> rfl
  · rfl

theorem releaseLocks_seenBy : (s.seenBy c).releaseLocks number owner =
    ((s.releaseLocks number owner).1, (s.releaseLocks number owner).2.seenBy c) := by
  have hlocks : ((s.seenBy c).registry number).locks = (s.registry number).locks := by
    rw [registry_seenBy]
    rfl
  unfold releaseLocks
  rw [hlocks]
  dsimp only
  split
  · rfl
  · rw [seenBy_setLocks]
    rfl

theorem findIdx?_seenBy (name : ContextName) :
    (s.seenBy c).registries.findIdx? (fun r => r.serves name) = s.registries.findIdx? fun r => r.serves name := by
  rw [seenBy, List.findIdx?_map]
  rfl

end State
end Responder
