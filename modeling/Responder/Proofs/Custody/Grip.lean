import Responder.Proofs.Custody.Touch
import Responder.Proofs.Items
import Responder.Proofs.Registry

/-! What a transaction has prepared. An object on which it has prepared an item and not cleaned it up yet (`Engaged`)
    is the target of one of its items, and the transaction holds the lock of that object at least once for each such
    item (`Tied`). One pass keeps this step by step, and calls an object to prepare, commit or undo only while it holds
    its lock, so that nobody else held it when the pass began (`Watch`). -/

namespace Responder

variable {Obj : Type}

/-- An object was called on behalf of a transaction, for the item at an index. -/
def Called (journal : List Step) (id : TransactionId) (callback : Callback) (object : ObjectId) (index : Nat) : Prop :=
  ∃ st ∈ journal, st.who.transaction = id ∧ st.callback = callback ∧ st.object = some object ∧ st.before.index = index

/-- The transaction has prepared some item on an object, and has not cleaned it up yet. -/
def Engaged (journal : List Step) (id : TransactionId) (object : ObjectId) : Prop :=
  ∃ index, Called journal id .prepare object index ∧ ¬Called journal id .cleanup object index

theorem called_append {journal steps : List Step} {id : TransactionId} {callback : Callback} {object : ObjectId}
    {index : Nat} : Called (journal ++ steps) id callback object index ↔
      Called journal id callback object index ∨ Called steps id callback object index := by
  simp only [Called, List.mem_append, or_and_right, exists_or]

theorem called_singleton {st : Step} {id : TransactionId} {callback : Callback} {object : ObjectId} {index : Nat} :
    Called [st] id callback object index ↔ st.who.transaction = id ∧ st.callback = callback ∧
      st.object = some object ∧ st.before.index = index := by
  simp [Called]

/-- What others do engages nobody, and ends no engagement. -/
theorem engaged_append_of_ne {journal steps : List Step} {id : TransactionId} {object : ObjectId}
    (h : ∀ st ∈ steps, st.who.transaction ≠ id) : Engaged (journal ++ steps) id object ↔ Engaged journal id object := by
  have hnone {callback : Callback} {index : Nat} : ¬Called steps id callback object index := by
    rintro ⟨st, hst, hid, -⟩
    exact h st hst hid
  simp only [Engaged, called_append, hnone, or_false]

/-- What is kept of an item while it is written. -/
structure Spot where
  index : Nat
  region : Region
  target : Option ObjectId
deriving DecidableEq

def Item.spot (x : Item) : Spot := ⟨x.index, x.region, x.target⟩

/-- The items of a transaction are tied to the objects on which they are prepared. -/
structure Tied (entries : List Entry) (number : Nat) (who : Requester) (s : State Obj) (spots : List Spot) : Prop where
  placed : ∀ x ∈ spots, ∃ o, x.region = (Region.point o).inContext (some who.context)
  found : ∀ x ∈ spots, ∀ object, x.target = some object →
    ∃ e ∈ entries, e.object = object ∧ x.region.overlaps e.region = true
  linked : ∀ object index, Called s.journal who.transaction .prepare object index →
    ¬Called s.journal who.transaction .cleanup object index → ∃ x ∈ spots, x.index = index ∧ x.target = some object
  backed : ∀ object, (spots.countP fun x => x.target = some object) ≤
    (s.registry number).locks.count who.transaction object

/-- A pass touches what is its own, and no object but under its lock is called to prepare, commit or undo. So nobody
else held that lock when the pass began. -/
structure Watch (entries : Nat → List Entry) (number : Nat) (who : Requester) (s t : State Obj) : Prop
    extends Touches number who (Registers entries number) s t where
  guarded : ∀ st ∈ t.journal.drop s.journal.length, ∀ object, st.object = some object → st.callback ≠ .cleanup →
    ∀ h ∈ (s.registry number).locks.holds, h.object = object → h.owner = who.transaction

namespace Watch

variable {entries : Nat → List Entry} {number : Nat} {who : Requester} {s t u : State Obj}

theorem refl (hs : (s.registry number).locks.Sound) : Watch entries number who s s where
  toTouches := .refl hs
  guarded st hst := by simp at hst

theorem quiet (h : Watch entries number who s t) (ht : Touches number who (Registers entries number) t u)
    (hjournal : u.journal = t.journal) : Watch entries number who s u where
  toTouches := h.trans ht
  guarded := hjournal ▸ h.guarded

/-- One step is taken, under the lock of its object if it prepares, commits or undoes. -/
theorem enter (h : Watch entries number who s t) (ht : Touches number who (Registers entries number) t u) {st : Step}
    (hjournal : u.journal = t.journal ++ [st])
    (hst : ∀ object, st.object = some object → st.callback ≠ .cleanup →
      1 ≤ (t.registry number).locks.count who.transaction object) : Watch entries number who s u where
  toTouches := h.trans ht
  guarded st' hst' object hobject hcallback x hx hxobject := by
    obtain ⟨steps, hsteps, -⟩ := h.journal
    have hlen : s.journal.length ≤ t.journal.length := by simp [hsteps]
    rw [hjournal, List.drop_append_of_le_length hlen, List.mem_append, List.mem_singleton] at hst'
    rcases hst' with hst' | rfl
    · exact h.guarded st' hst' object hobject hcallback x hx hxobject
    · -- The lock is the transaction's own, and what others hold has not changed since the pass began.
      by_contra howner
      have hxt := (h.mine.others x howner).mpr hx
      obtain ⟨y, hy, hyobject, hyowner⟩ := h.mine.sound.count_pos_iff.mp (hst object hobject hcallback)
      exact howner (List.inj_on_of_nodup_map h.mine.sound.distinct hxt hy (hxobject.trans hyobject.symm) ▸ hyowner)

end Watch

/-! ### How often a lock is held -/

namespace State

variable {s t : State Obj} {number : Nat} {owner : TransactionId} {object : ObjectId}

theorem count_tryLock (hs : (s.registry number).locks.Sound) (hnumber : number < s.registries.length)
    (htaken : (s.tryLock number owner object).1 = true) (o : ObjectId) :
    ((s.tryLock number owner object).2.registry number).locks.count owner o =
      (s.registry number).locks.count owner o + if o = object then 1 else 0 := by
  unfold tryLock at htaken ⊢
  cases htake : (s.registry number).locks.take? owner object with
  | none => simp [htake] at htaken
  | some locks =>
    dsimp only
    rw [registry_setLocks, if_pos ⟨rfl, hnumber⟩]
    exact (hs.take? htake).2.1 o

theorem count_unlock (hs : (s.registry number).locks.Sound) (o : ObjectId) :
    (s.registry number).locks.count owner o ≤
      ((s.unlock number owner object).2.registry number).locks.count owner o + if o = object then 1 else 0 := by
  unfold unlock
  cases hrelease : (s.registry number).locks.release? owner object with
  | none => exact Nat.le_add_right _ _
  | some locks =>
    have hset : (s.registry number).locks.count owner o ≤
        ((s.setLocks number locks).registry number).locks.count owner o + if o = object then 1 else 0 := by
      rw [registry_setLocks]
      split
      · exact ((hs.release? hrelease).2 o).le
      · exact Nat.le_add_right _ _
    dsimp only
    split <;> exact hset

end State

namespace Tied

variable {entries : List Entry} {number : Nat} {who : Requester} {s t : State Obj} {done rest : List Spot} {x y : Spot}
  {spots : List Spot}

/-- What others do leaves all ties as they are, if no lock is lost. -/
theorem frame (h : Tied entries number who s spots) {steps : List Step} (hjournal : t.journal = s.journal ++ steps)
    (hsteps : ∀ st ∈ steps, st.who.transaction ≠ who.transaction)
    (hlocks : ∀ object, (s.registry number).locks.count who.transaction object ≤
      (t.registry number).locks.count who.transaction object) : Tied entries number who t spots where
  placed := h.placed
  found := h.found
  linked object index hprepared hcleaned := by
    have hothers {callback : Callback} : ¬Called steps who.transaction callback object index := by
      rintro ⟨st, hst, hwho, -⟩
      exact hsteps st hst hwho
    rw [hjournal, called_append] at hprepared hcleaned
    exact h.linked object index (hprepared.resolve_right hothers) fun hc => hcleaned (Or.inl hc)
  backed object := (h.backed object).trans (hlocks object)

theorem of_same (h : Tied entries number who s spots) (hjournal : t.journal = s.journal)
    (hlocks : ∀ object, (s.registry number).locks.count who.transaction object ≤
      (t.registry number).locks.count who.transaction object) : Tied entries number who t spots :=
  h.frame (hjournal.trans (List.append_nil _).symm) (by simp) hlocks

/-- Wherever an item is tied already, that is the object that is found for it. -/
theorem eq_of_found (h : Tied entries number who s spots) (hordered : Registry.Ordered entries) (hx : x ∈ spots)
    {e : Entry} (he : e ∈ entries) (hover : x.region.overlaps e.region = true) {object : ObjectId}
    (hobject : x.target = some object) : object = e.object := by
  obtain ⟨o, ho⟩ := h.placed x hx
  obtain ⟨e', he', rfl, hover'⟩ := h.found x hx object hobject
  rw [ho, Registry.overlaps_point] at hover hover'
  rw [hordered.eq_of_seen he' he hover'.1 hover.1 hover'.2 hover.2]

theorem countP_append_cons (object : ObjectId) : ((done ++ x :: rest).countP fun x => x.target = some object) =
    (done.countP fun x => x.target = some object) + (rest.countP fun x => x.target = some object) +
      if x.target = some object then 1 else 0 := by
  rw [List.countP_append, List.countP_cons]
  simp only [decide_eq_true_eq]
  omega

theorem enter (h : Tied entries number who s spots) {st : Step} (hjournal : t.journal = s.journal ++ [st])
    (hlocks : (t.registry number).locks = (s.registry number).locks)
    (hst : st.object = none ∨ st.callback ≠ .prepare ∧ st.callback ≠ .cleanup) : Tied entries number who t spots where
  placed := h.placed
  found := h.found
  linked object index hprepared hcleaned := by
    rw [hjournal, called_append, called_singleton] at hprepared hcleaned
    refine h.linked object index (hprepared.resolve_right ?_) fun hc => hcleaned (Or.inl hc)
    rintro ⟨-, hcallback, hobject, -⟩
    rcases hst with hnone | ⟨hne, -⟩
    · rw [hnone] at hobject
      cases hobject
    · exact hne hcallback
  backed := hlocks ▸ h.backed

/-- An item is prepared on an object whose lock was taken for it. -/
theorem prepare (h : Tied entries number who s (done ++ x :: rest)) (hordered : Registry.Ordered entries) {e : Entry}
    (he : e ∈ entries) (hover : x.region.overlaps e.region = true)
    (hspare : ∀ object, ((done ++ x :: rest).countP fun x => x.target = some object) +
      (if object = e.object then 1 else 0) ≤ (s.registry number).locks.count who.transaction object)
    {st : Step} (hjournal : t.journal = s.journal ++ [st])
    (hlocks : (t.registry number).locks = (s.registry number).locks) (hobject : st.object = some e.object)
    (hindex : st.before.index = x.index) :
    Tied entries number who t (done ++ ⟨x.index, x.region, some e.object⟩ :: rest) where
  placed := forall_replace h.placed (h.placed x (by simp))
  found := forall_replace h.found fun object ho => ⟨e, he, Option.some.inj ho, hover⟩
  linked object index hprepared hcleaned := by
    rw [hjournal, called_append, called_singleton] at hprepared hcleaned
    rcases hprepared with hprepared | ⟨-, -, ho, hi⟩
    · obtain ⟨y, hy, hyindex, hytarget⟩ := h.linked object index hprepared fun hc => hcleaned (Or.inl hc)
      rcases List.mem_append.mp hy with hy | hy
      · exact ⟨y, List.mem_append_left _ hy, hyindex, hytarget⟩
      · rcases List.mem_cons.mp hy with rfl | hy
        · -- An item that is prepared again is prepared on the same object.
          have hsame := h.eq_of_found hordered (by simp) he hover hytarget
          exact ⟨_, List.mem_append_right _ List.mem_cons_self, hyindex, by rw [hsame]⟩
        · exact ⟨y, List.mem_append_right _ (List.mem_cons_of_mem _ hy), hyindex, hytarget⟩
    · rw [hobject] at ho
      exact ⟨_, List.mem_append_right _ List.mem_cons_self, hindex.symm.trans hi, ho⟩
  backed object := by
    have hs := hspare object
    rw [hlocks, countP_append_cons]
    rw [countP_append_cons] at hs
    simp only [Option.some.injEq, eq_comm (a := e.object)] at hs ⊢
    omega

/-- An item is cleaned up, and a lock released. -/
theorem cleanup (h : Tied entries number who s (done ++ x :: rest)) {object : ObjectId} (hx : x.target = some object)
    {st : Step} (hjournal : t.journal = s.journal ++ [st])
    (hlocks : ∀ o, (s.registry number).locks.count who.transaction o ≤
      (t.registry number).locks.count who.transaction o + if o = object then 1 else 0)
    (hcallback : st.callback = .cleanup) (hwho : st.who = who) (hobject : st.object = some object)
    (hindex : st.before.index = x.index) : Tied entries number who t (done ++ ⟨x.index, x.region, none⟩ :: rest) where
  placed := forall_replace h.placed (h.placed x (by simp))
  found := forall_replace h.found fun _ ho => by cases ho
  linked o index hprepared hcleaned := by
    rw [hjournal, called_append, called_singleton] at hprepared hcleaned
    obtain ⟨y, hy, hyindex, hytarget⟩ := h.linked o index
      (hprepared.resolve_right fun hst => by rw [hcallback] at hst; cases hst.2.1) fun hc => hcleaned (Or.inl hc)
    rcases List.mem_append.mp hy with hy | hy
    · exact ⟨y, List.mem_append_left _ hy, hyindex, hytarget⟩
    · rcases List.mem_cons.mp hy with rfl | hy
      · refine absurd (Or.inr ⟨by rw [hwho], hcallback, ?_, hindex.trans hyindex⟩) hcleaned
        rw [hobject, ← hx, hytarget]
      · exact ⟨y, List.mem_append_right _ (List.mem_cons_of_mem _ hy), hyindex, hytarget⟩
  backed o := by
    have hs := (h.backed o).trans (hlocks o)
    rw [countP_append_cons] at hs ⊢
    simp only [hx, Option.some.injEq, eq_comm (a := object), reduceCtorEq, if_false] at hs ⊢
    omega

end Tied
end Responder
