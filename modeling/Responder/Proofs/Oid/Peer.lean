import Mathlib.Order.Bounds.Basic
import Responder.Proofs.Range
import Responder.Region.Basic

/-! Next peers. Raising a path drops the arcs at its end that are at their limit and raises the one before them
    (`nextPeer?_eq_some_iff`), so a path has a next peer unless all its arcs are at their limit. The next peer is the
    least identifier above everything under the path; without one, everything from the path on is under it. So the
    region under a root contains what extends the root, and nothing else (`subtree_is_descendants`). -/

namespace Responder.Oid

variable {o root peer : Oid}

/-! ### Carrying -/

theorem raise_eq_none_iff {arcs : List UInt32} : raise arcs = none ↔ ∀ arc ∈ arcs, arc = maxArc := by
  induction arcs with
  | nil => simp [raise]
  | cons arc rest ih =>
    have hlimit : ¬arc < maxArc ↔ arc = maxArc := by
      have hmax : maxArc.toNat = 4294967295 := rfl
      have hlt := arc.toNat_lt
      rw [UInt32.lt_iff_toNat_lt, ← UInt32.toNat_inj]
      omega
    rw [List.forall_mem_cons, ← ih]
    cases hraise : raise rest with
    | some up => simp [raise, hraise]
    | none => simp [raise, hraise, hlimit]

theorem raise_append_maxArcs {arc : UInt32} (h : arc < maxArc) (front : List UInt32) (n : Nat) :
    raise (front ++ arc :: List.replicate n maxArc) = some (front ++ [arc + 1]) := by
  induction front with
  | nil =>
    have hrest : raise (List.replicate n maxArc) = none :=
      raise_eq_none_iff.mpr fun arc harc => List.eq_of_mem_replicate harc
    simp [raise, hrest, h]
  | cons first front ih => simp [raise, ih]

theorem raise_eq_some_iff {arcs up : List UInt32} : raise arcs = some up ↔
    ∃ front arc n, arc < maxArc ∧ arcs = front ++ arc :: List.replicate n maxArc ∧ up = front ++ [arc + 1] := by
  constructor
  · intro h
    induction arcs generalizing up with
    | nil => cases h
    | cons first rest ih =>
      rw [raise] at h
      cases hraise : raise rest with
      | some up' =>
        obtain ⟨front, arc, n, hless, rfl, rfl⟩ := ih hraise
        rw [hraise] at h
        cases h
        exact ⟨first :: front, arc, n, hless, rfl, rfl⟩
      | none =>
        rw [hraise] at h
        obtain ⟨hless, rfl⟩ := Option.ite_some_none_eq_some.mp h
        have hrest := List.eq_replicate_of_mem (raise_eq_none_iff.mp hraise)
        exact ⟨[], first, rest.length, hless, congrArg (first :: ·) hrest, rfl⟩
  · rintro ⟨front, arc, n, hless, rfl, rfl⟩
    exact raise_append_maxArcs hless front n

theorem nextPeer?_eq_some_iff : root.nextPeer? = some peer ↔ ∃ front arc n, arc < maxArc ∧
    root.arcs = front ++ arc :: List.replicate n maxArc ∧ peer = ⟨front ++ [arc + 1]⟩ := by
  rw [nextPeer?, Option.map_eq_some_iff]
  constructor
  · rintro ⟨up, hup, rfl⟩
    obtain ⟨front, arc, n, hless, harcs, rfl⟩ := raise_eq_some_iff.mp hup
    exact ⟨front, arc, n, hless, harcs, rfl⟩
  · rintro ⟨front, arc, n, hless, harcs, rfl⟩
    exact ⟨_, raise_eq_some_iff.mpr ⟨front, arc, n, hless, harcs, rfl⟩, rfl⟩

theorem nextPeer?_eq_none_iff : root.nextPeer? = none ↔ ∀ arc ∈ root.arcs, arc = maxArc := by
  rw [nextPeer?, Option.map_eq_none_iff, raise_eq_none_iff]

/-! ### What lies under a root -/

/-- Nothing lies between what is under a root and the root's next peer. -/
theorem isLeast_nextPeer (h : root.nextPeer? = some peer) :
    IsLeast {above | ∀ o : Oid, o.isUnder root = true → o < above} peer := by
  refine ⟨fun o ho => (isUnder_iff_between.mp ho).2 peer h, fun above habove => ?_⟩
  -- Something smaller would lie under the root itself, and so below itself.
  by_contra hless
  have hroot : root < above := habove root (isUnder_self root)
  refine absurd (habove above (isUnder_iff_between.mpr ⟨hroot.le, fun p hp => ?_⟩)) (lt_irrefl above)
  obtain rfl := Option.some.inj (h.symm.trans hp)
  exact not_le.mp hless

theorem isUnder_of_nextPeer?_eq_none (h : root.nextPeer? = none) (hle : root ≤ o) : o.isUnder root = true :=
  isUnder_iff_between.mpr ⟨hle, fun _ hpeer => nomatch h.symm.trans hpeer⟩

/-- The region under a root contains just the identifiers that extend the root. Where the root has a next peer, that
is the least identifier above all of these: the last arc that is below its limit is raised, and the arcs behind it,
which are at their limit, are dropped. It has none just if all its arcs are at their limit, as with the empty path, and
then every identifier from the root on extends it. -/
theorem subtree_is_descendants (root : Oid) :
    (∀ o : Oid, ((Region.subtree root).contains o = true ↔ o.isUnder root = true) ∧
      (o.isUnder root = true ↔ root.arcs <+: o.arcs)) ∧
    (∀ peer, root.nextPeer? = some peer →
      IsLeast {above | ∀ o : Oid, o.isUnder root = true → o < above} peer ∧
      ∃ front arc n, arc < maxArc ∧ root.arcs = front ++ arc :: List.replicate n maxArc ∧ peer = ⟨front ++ [arc + 1]⟩) ∧
    (root.nextPeer? = none → ∀ o : Oid, root ≤ o → o.isUnder root = true) ∧
    (root.nextPeer? = none ↔ ∀ arc ∈ root.arcs, arc = maxArc) := by
  refine ⟨fun o => ⟨?_, isUnder_iff⟩, fun peer hpeer => ⟨isLeast_nextPeer hpeer, nextPeer?_eq_some_iff.mp hpeer⟩,
    fun hnone o hle => isUnder_of_nextPeer?_eq_none hnone hle, nextPeer?_eq_none_iff⟩
  rw [Region.subtree, Region.everywhere, Range.contains_subtree]

/-- A carry past two arcs at their limit. -/
example : (⟨[1, 3, maxArc, maxArc]⟩ : Oid).nextPeer? = some ⟨[1, 4]⟩ := rfl

end Responder.Oid
