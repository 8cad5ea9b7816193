import Responder.Proofs.Custody.Roster
import Responder.Proofs.Custody.Touch

/-! No lock outlives its request. Between two things that happen to an agent without tasks in the background, every
    request that is outstanding is parked, and every lock belongs to one of these requests in the registry that serves
    it (`settled_of_deeds`). While requests are at hand the same holds of these and the parked ones together
    (`Settled`), and whatever happens keeps it (`Chronicle.settled`). -/

namespace Responder

variable {Obj : Type} {entries : Nat → List Entry} {s t u : State Obj} {hands left : List Pending} {p q : Pending}

theorem State.registry_congr (h : t.registries = s.registries) (number : Nat) :
    t.registry number = s.registry number := by
  rw [registry, registry, h]

/-- What is outstanding is parked or at hand, and every lock belongs to a request that goes on. -/
structure Settled (entries : Nat → List Entry) (s : State Obj) (hands : List Pending) : Prop
    extends Roster (Registers entries) s hands where
  tidy : s.Tidy entries
  held : ∀ number, ∀ h ∈ (s.registry number).locks.holds,
    ∃ p : Pending, p.Lives s hands ∧ p.registry = number ∧ p.request.transaction = h.owner

/-- Some locks have been given up, by registry and owner, and no others. -/
structure State.Clears (gone : Nat → TransactionId → Prop) (s t : State Obj) : Prop where
  sound : ∀ number, (s.registry number).locks.Sound → (t.registry number).locks.Sound
  holds : ∀ number h, h ∈ (t.registry number).locks.holds ↔
    h ∈ (s.registry number).locks.holds ∧ ¬gone number h.owner
  entries : ∀ number, (t.registry number).entries = (s.registry number).entries
  locking : ∀ number, (t.registry number).locking = (s.registry number).locking
  transactions : t.transactions = s.transactions
  journal : t.journal = s.journal

namespace State

variable {gone gone' : Nat → TransactionId → Prop}

theorem Clears.trans (h : s.Clears gone t) (h' : t.Clears gone' u) :
    s.Clears (fun number id => gone number id ∨ gone' number id) u where
  sound number hs := h'.sound number (h.sound number hs)
  holds number x := by rw [h'.holds, h.holds, and_assoc, not_or]
  entries number := (h'.entries number).trans (h.entries number)
  locking number := (h'.locking number).trans (h.locking number)
  transactions := h'.transactions.trans h.transactions
  journal := h'.journal.trans h.journal

theorem clears_nothing (hregistries : t.registries = s.registries) (htransactions : t.transactions = s.transactions)
    (hjournal : t.journal = s.journal) : s.Clears (fun _ _ => False) t := by
  have hregistry := registry_congr hregistries
  exact ⟨fun number => by rw [hregistry]; exact id, fun number h => by rw [hregistry]; simp,
    fun number => by rw [hregistry], fun number => by rw [hregistry], htransactions, hjournal⟩

theorem Clears.congr (h : s.Clears gone t) (hgone : ∀ number id, gone number id ↔ gone' number id) :
    s.Clears gone' t := by
  obtain rfl : gone = gone' := funext fun number => funext fun id => propext (hgone number id)
  exact h

/-- To release all locks of a transaction in a registry clears just these. -/
theorem clears_releaseLocks (s : State Obj) (number : Nat) (owner : TransactionId) :
    s.Clears (fun other id => other = number ∧ id = owner) (s.releaseLocks number owner).2 := by
  unfold releaseLocks
  dsimp only
  split
  · next hnone =>
    refine ⟨fun _ => id, fun other h => ?_, fun _ => rfl, fun _ => rfl, rfl, rfl⟩
    refine (and_iff_left_of_imp ?_).symm
    rintro hh ⟨rfl, howner⟩
    have hempty := List.eq_nil_of_length_eq_zero hnone
    exact List.not_mem_nil (hempty ▸ List.mem_filter.mpr ⟨hh, decide_eq_true howner⟩)
  · let locks := (s.registry number).locks.releaseAll owner
    have hregistry (other : Nat) : ((s.setLocks number locks).noteRelease number).registry other =
        if other = number ∧ number < s.registries.length then { s.registry number with locks } else s.registry other :=
      registry_setLocks s number other locks
    refine ⟨fun other hs => ?_, fun other h => ?_, fun other => ?_, fun other => ?_, rfl, rfl⟩
    · rw [hregistry]
      split
      · next hsame => exact ((hsame.1 ▸ hs).releaseAll owner).1.sound
      · exact hs
    · rw [hregistry]
      split
      · next hsame =>
        obtain ⟨rfl, -⟩ := hsame
        simp [locks, Locks.releaseAll]
      · next hother =>
        refine (and_iff_left_of_imp ?_).symm
        rintro hh ⟨rfl, -⟩
        -- A registry that is not there has no locks.
        have hge : s.registries.length ≤ other := by simpa using hother
        rw [registry, List.getD_eq_getElem?_getD, List.getElem?_eq_none hge] at hh
        cases hh
    · rw [hregistry]
      split
      · next hsame => rw [hsame.1]
      · rfl
    · rw [hregistry]
      split
      · next hsame => rw [hsame.1]
      · rfl

end State

namespace Settled

/-- Nothing has changed in what is outstanding and in the registries, but there may have been more transactions. -/
theorem of_same (h : Settled entries s hands) (hregistries : t.registries = s.registries)
    (houtstanding : t.outstanding.entries = s.outstanding.entries) (htransactions : s.transactions ≤ t.transactions) :
    Settled entries t hands where
  toRoster := h.toRoster.of_same houtstanding htransactions
  tidy := by
    have hregistry := State.registry_congr hregistries
    exact ⟨fun number => hregistry number ▸ h.tidy.sound number, fun number => hregistry number ▸ h.tidy.entries number⟩
  held number x hx := by
    rw [State.registry_congr hregistries] at hx
    obtain ⟨p, hp, hrest⟩ := h.held number x hx
    exact ⟨p, (Pending.lives_congr houtstanding).mpr hp, hrest⟩

/-- A request may take and release locks of its own while it is at hand. -/
theorem touch (h : Settled entries s hands) (hp : p ∈ hands)
    (ht : Touches p.registry p.request.requester (Registers entries p.registry) s t) : Settled entries t hands where
  toRoster := h.toRoster.of_same (congrArg Outstanding.entries ht.outstanding) ht.transactions.ge
  tidy := ht.tidy h.tidy
  held number x hx := by
    have hlives {q : Pending} : q.Lives s hands → q.Lives t hands :=
      (Pending.lives_congr (congrArg Outstanding.entries ht.outstanding)).mpr
    by_cases hnumber : number = p.registry
    · subst hnumber
      by_cases howner : x.owner = p.request.transaction
      · exact ⟨p, Or.inl hp, rfl, howner.symm⟩
      · obtain ⟨q, hq, hrest⟩ := h.held p.registry x ((ht.mine.others x howner).mp hx)
        exact ⟨q, hlives hq, hrest⟩
    · rw [ht.rest number hnumber] at hx
      obtain ⟨q, hq, hrest⟩ := h.held number x hx
      exact ⟨q, hlives hq, hrest⟩

/-- Where some requests are no longer outstanding and have given up their locks, the locks that are left belong to
those that go on. -/
theorem leave (h : Settled entries s hands) {gone : Nat → TransactionId → Prop} (hclears : s.Clears gone t)
    (hroster : Roster (Registers entries) t left)
    (hgone : ∀ p : Pending, p.Lives s hands → ¬p.Lives t left → gone p.registry p.request.transaction) :
    Settled entries t left where
  toRoster := hroster
  tidy := ⟨fun number => hclears.sound number (h.tidy.sound number),
    fun number => (hclears.entries number).trans (h.tidy.entries number)⟩
  held number x hx := by
    obtain ⟨hmem, hstays⟩ := (hclears.holds number x).mp hx
    obtain ⟨p, hp, rfl, howner⟩ := h.held number x hmem
    refine ⟨p, ?_, rfl, howner⟩
    by_contra hdead
    exact hstays (howner ▸ hgone p hp hdead)

/-- A request that was at hand is parked, in whatever way it has gone on. -/
theorem park (h : Settled entries s (p :: hands)) {r : Request}
    (hr : r.Apt p.request.requester (Registers entries p.registry)) :
    Settled entries (Agent.park { p with request := r } s) hands := by
  have hid : r.transaction = p.request.transaction := congrArg Requester.transaction hr.requester
  have hlives {o : Pending} := h.lives_park (q := { p with request := r }) hid (o := o)
  have hregistry (number : Nat) : (Agent.park { p with request := r } s).registry number = s.registry number := by
    rw [h.park_eq hid]
    rfl
  refine ⟨h.toRoster.park hr, ⟨fun number => ?_, fun number => ?_⟩, fun number x hx => ?_⟩
  · rw [hregistry]
    exact h.tidy.sound number
  · rw [hregistry]
    exact h.tidy.entries number
  · rw [hregistry] at hx
    obtain ⟨q, hq, hnumber, howner⟩ := h.held number x hx
    by_cases hqid : q.request.transaction = p.request.transaction
    · obtain rfl := h.unique hq (Or.inl List.mem_cons_self) hqid
      exact ⟨{ q with request := r }, hlives.mpr (Or.inl rfl), hnumber, hid.trans howner⟩
    · exact ⟨q, hlives.mpr (Or.inr ⟨hq, hqid⟩), hnumber, howner⟩

end Settled
end Responder
