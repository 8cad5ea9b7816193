import Responder.Proofs.Lookup

/-! The history of a transaction: the steps that the journal has of it. Only a call of an object and a
    refusal add to it, one step each. What a history says of an item is whether a step of some kind
    occurs in it, which a further step changes in the plain way (`occurs_append`). -/

namespace Responder

namespace Step

/-- The place of the item in its request. -/
def index (st : Step) : Nat := st.before.index

/-- Whether the object raised a fault. -/
def faulted (st : Step) : Bool :=
  match st.result with
  | .ok _ => false
  | .error _ => true

/-- Whether the step left the item with an error. -/
def failed (st : Step) : Bool := st.after.hasError || st.faulted

/-- Whether the item is not to be called again in the phase. A cleanup is never repeated, and anything else only
if the item is deferred. -/
def closed (st : Step) : Bool := decide (st.callback = .cleanup) || !st.after.deferred || st.faulted

/-- Whether an object was called, and answered without an error and without deferring the item. -/
def passed (st : Step) : Bool := st.object.isSome && st.closed && !st.failed

/-- Whether the step left the item over and still to be called again. -/
def torn (st : Step) : Bool := st.after.complete && st.after.deferred

end Step

namespace State

variable {Obj : Type} (s : State Obj) (tx : TransactionId)

/-- The steps that the items of a transaction have gone through, the first one first. -/
def history : List Step := s.journal.filter fun st => st.who.transaction = tx

theorem history_congr {s t : State Obj} (h : t.journal = s.journal) (tx : TransactionId) :
    t.history tx = s.history tx := by
  rw [history, history, h]

theorem history_eq_of_bare {s t : State Obj} (h : t.bare = s.bare) : t.history tx = s.history tx :=
  history_congr (journal_eq_of_bare h) tx

@[simp] theorem history_call [ManagedObject Obj] (callback : Callback) (who : Requester) (id : ObjectId) (item : Item) :
    (s.call callback who id item).2.history who.transaction = s.history who.transaction ++
      [⟨who, callback, some id, item, (s.call callback who id item).1.1, (s.call callback who id item).1.2⟩] := by
  simp [history, call, setObject, enter, note]

@[simp] theorem history_refuse (callback : Callback) (who : Requester) (item : Item) (status : Status) :
    (s.refuse callback who item status).2.history who.transaction = s.history who.transaction ++
      [⟨who, callback, none, item, item.setError status, .ok false⟩] := by
  simp [history, refuse, enter]

end State

/-- The history of a transaction is left alone. -/
def Aside {Obj : Type} (tx : TransactionId) (s t : State Obj) : Prop := t.history tx = s.history tx

/-- A step for an item, of a kind, that passes a test. -/
def Occurs (h : List Step) (callback : Callback) (index : Nat) (test : Step → Bool) : Prop :=
  ∃ st ∈ h, st.callback = callback ∧ st.index = index ∧ test st = true

section Occurs
variable {h : List Step} {st : Step} {callback : Callback} {index : Nat} {test : Step → Bool}

@[simp] theorem not_occurs_nil : ¬Occurs [] callback index test := by simp [Occurs]

theorem occurs_append : Occurs (h ++ [st]) callback index test ↔
    Occurs h callback index test ∨ st.callback = callback ∧ st.index = index ∧ test st = true := by
  simp only [Occurs, List.mem_append, List.mem_singleton, or_and_right, exists_or, exists_eq_left]

theorem Occurs.append (hocc : Occurs h callback index test) (st : Step) : Occurs (h ++ [st]) callback index test :=
  occurs_append.mpr (Or.inl hocc)

/-- A step for another item, or of another kind, does not matter. -/
theorem occurs_append_of_ne (hne : st.index ≠ index ∨ st.callback ≠ callback) :
    Occurs (h ++ [st]) callback index test ↔ Occurs h callback index test := by
  rw [occurs_append, or_iff_left_iff_imp]
  rintro ⟨hc, hi, -⟩
  exact (hne.elim (· hi) (· hc)).elim

end Occurs

/-- The object that was last called to prepare an item. -/
def owner? (h : List Step) (index : Nat) : Option ObjectId :=
  h.reverse.findSome? fun st => if st.callback = .prepare ∧ st.index = index then st.object else none

section Owner
variable {h : List Step} {st : Step} {index : Nat}

@[simp] theorem owner?_nil : owner? [] index = none := rfl

@[simp] theorem owner?_singleton :
    owner? [st] index = if st.callback = .prepare ∧ st.index = index then st.object else none := by
  simp only [owner?, List.reverse_singleton, List.findSome?_cons]
  split <;> simp [*]

theorem owner?_append (later : List Step) : owner? (h ++ later) index = (owner? later index).or (owner? h index) := by
  simp only [owner?, List.reverse_append, List.findSome?_append]

theorem exists_of_owner? (hsome : (owner? h index).isSome = true) :
    ∃ st ∈ h, st.callback = .prepare ∧ st.index = index := by
  rw [owner?, List.findSome?_isSome_iff] at hsome
  obtain ⟨st, hst, hsome⟩ := hsome
  refine ⟨st, List.mem_reverse.mp hst, ?_⟩
  split at hsome
  · assumption
  · cases hsome

theorem owner?_append_of_ne (hne : st.index ≠ index ∨ st.callback ≠ .prepare) :
    owner? (h ++ [st]) index = owner? h index := by
  rw [owner?_append, owner?_singleton, if_neg, Option.none_or]
  rintro ⟨hc, hi⟩
  exact hne.elim (· hi) (· hc)

theorem isSome_owner? (hocc : Occurs h .prepare index Step.passed) : (owner? h index).isSome = true := by
  obtain ⟨st, hmem, hc, hi, hpassed⟩ := hocc
  simp only [Step.passed, Bool.and_eq_true] at hpassed
  obtain ⟨id, hid⟩ := Option.isSome_iff_exists.mp hpassed.1.1
  rw [owner?, List.findSome?_isSome_iff]
  exact ⟨st, List.mem_reverse.mpr hmem, by simp [hc, hi, hid]⟩

end Owner
end Responder
