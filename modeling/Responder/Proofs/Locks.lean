import Responder.State

/-! Locks that one transaction holds alone. While nobody else holds a lock of a registry, the transaction gets every
    lock that it asks for, and nothing that it does gives a lock to anybody else. -/

namespace Responder

namespace Locks

variable {t t' : Locks} {owner : TransactionId} {object : ObjectId}

/-- All locks that are taken belong to one transaction. -/
def OwnedBy (t : Locks) (owner : TransactionId) : Prop := ∀ h ∈ t.holds, h.owner = owner

theorem OwnedBy.adjust (h : t.OwnedBy owner) {f : Hold → Option Hold} (hf : ∀ x y, f x = some y → y.owner = x.owner) :
    (t.adjust object f).OwnedBy owner := by
  intro y hy
  obtain ⟨x, hx, hxy⟩ := List.mem_filterMap.mp hy
  split at hxy
  · exact (hf x y hxy).trans (h x hx)
  · exact Option.some.inj hxy ▸ h x hx

/-- The transaction gets every lock. -/
theorem OwnedBy.take? (h : t.OwnedBy owner) (object : ObjectId) :
    ∃ t', t.take? owner object = some t' ∧ t'.OwnedBy owner := by
  unfold Locks.take?
  cases hhold : t.hold? object with
  | none =>
    refine ⟨_, rfl, fun x hx => ?_⟩
    rcases List.mem_append.mp hx with hx | hx
    · exact h x hx
    · rw [List.mem_singleton.mp hx]
  | some x =>
    simp only [h x (List.mem_of_find?_eq_some hhold), if_true]
    refine ⟨_, rfl, h.adjust ?_⟩
    rintro x _ ⟨⟩
    rfl

theorem OwnedBy.release? (h : t.OwnedBy owner) (hr : t.release? owner object = some t') : t'.OwnedBy owner := by
  unfold Locks.release? at hr
  split at hr
  · cases hr
  · split at hr
    · cases hr
      refine h.adjust fun x y hxy => ?_
      split at hxy
      · cases hxy
      · cases hxy
        rfl
    · cases hr

end Locks

namespace State

variable {Obj : Type} {s : State Obj} {number : Nat} {owner : TransactionId} {object : ObjectId}

/-- The locks of a registry are those that were set. A registry that is not there has none. -/
theorem ownedBy_setLocks (s : State Obj) (number : Nat) {locks : Locks} (h : locks.OwnedBy owner) :
    ((s.setLocks number locks).registry number).locks.OwnedBy owner := by
  simp only [setLocks, setRegistry, registry, List.getD_eq_getElem?_getD, List.getElem?_set_self']
  cases s.registries[number]? with
  | none =>
    intro x hx
    cases hx
  | some r => exact h

theorem ownedBy_tryLock (h : (s.registry number).locks.OwnedBy owner) (object : ObjectId) :
    (s.tryLock number owner object).1 = true ∧
      ((s.tryLock number owner object).2.registry number).locks.OwnedBy owner := by
  obtain ⟨locks, htake, howned⟩ := h.take? object
  simp only [tryLock, htake, true_and]
  exact ownedBy_setLocks s number howned

theorem ownedBy_unlock (h : (s.registry number).locks.OwnedBy owner) :
    ((s.unlock number owner object).2.registry number).locks.OwnedBy owner := by
  unfold unlock
  split
  · next locks hrelease =>
    have howned := ownedBy_setLocks s number (h.release? hrelease)
    dsimp only
    split <;> exact howned
  · exact h

end State
end Responder
