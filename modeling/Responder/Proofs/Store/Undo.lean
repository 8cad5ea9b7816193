import Responder.Proofs.Set.Turn
import Responder.Proofs.Store

/-! Taking back what was written. A write records what the variable held, and a table records a variable that was not
    there as null. So what was written is taken back without a trace if no variable of a table held null
    (`restore_write`). A table that lets a new value pass does not hold null in its place (`recordable_of_passes`), and
    it does not before somebody puts it there (`Recordable.after`). -/

namespace Responder.Store

/-! ### How stores come about -/

/-- The store without a variable. The one of a scalar stays. -/
def drop : Store → Oid → Store
  | .scalar s, _ => .scalar s
  | .table t, o => .table (t.erase o)

/-- What changes a store: its owner, who sets or drops a variable, or a call. -/
inductive Change where
  | put (o : Oid) (v : Value)
  | drop (o : Oid)
  | call (callback : Callback) (who : Requester) (item : Item)

def after (b : Store) : Change → Store
  | .put o v => b.write o v
  | .drop o => b.drop o
  | .call callback who item => (ManagedObject.call callback who item b).object

/-- The store after a list of changes, the first one first. -/
def afterAll (b : Store) (changes : List Change) : Store := changes.foldl after b

/-- The stores that come about: scalars, tables that are empty at first, and what changes make of them. -/
inductive Reached : Store → Prop
  | scalar (s : Scalar) : Reached (.scalar s)
  | table (root : Oid) (access : TableAccess) : Reached (.table (.empty root access))
  | after {b : Store} (hb : Reached b) (change : Change) : Reached (b.after change)

/-- Whether what a variable holds can stand for itself where it is recorded. -/
def Recordable (b : Store) (o : Oid) : Prop := ∀ v, b.value? o = some v → b.keeps v = true

/-- Whether a change puts nothing into a variable that could not stand for itself where it is recorded. -/
def Change.Spares (b : Store) (o : Oid) : Change → Prop
  | .put o' v => o' = o → b.keeps v = true
  | .drop _ => True
  | .call callback _ item => callback = .commit → item.oid = o → b.keeps item.value = true

variable {b b' : Store} {o o' : Oid} {v : Value} {x : Binding} {change : Change}

/-! ### What a change keeps -/

@[simp] theorem shell_drop : (b.drop o).shell = b.shell := by cases b <;> rfl

theorem keeps_of_shell (h : b.shell = b'.shell) : b.keeps = b'.keeps := by
  cases b <;> cases b' <;> simp only [shell, reduceCtorEq] at h <;> rfl

theorem spares_of_shell (h : b.shell = b'.shell) : change.Spares b o ↔ change.Spares b' o := by
  cases change <;> simp only [Change.Spares, keeps_of_shell h]

/-- What a table cannot hold is not written. -/
theorem write_of_not_holds {t : Table} (ho : t.holds o = false) : (table t).write o v = table t := by
  simp [write, Table.insert, ho]

theorem wellFormed_write (hb : b.WellFormed) (o : Oid) (v : Value) : (b.write o v).WellFormed := by
  cases b with
  | scalar s => trivial
  | table t =>
    cases ho : t.holds o with
    | true => exact hb.write ho
    | false => rwa [write_of_not_holds ho]

theorem value?_table_drop {t : Table} (hb : (table t).WellFormed) :
    ((table t).drop o).value? o' = if o' = o then none else (table t).value? o' := OidMap.get?_erase hb.1

theorem value?_of_drop (hb : b.WellFormed) (h : (b.drop o).value? o' = some v) : b.value? o' = some v := by
  cases b with
  | scalar s => exact h
  | table t =>
    rw [value?_table_drop hb] at h
    exact (Option.ite_none_left_eq_some.mp h).2

theorem WellFormed.drop (hb : b.WellFormed) (o : Oid) : (b.drop o).WellFormed := by
  cases b with
  | scalar s => trivial
  | table t => exact ⟨hb.1.erase o, fun o' v hv => hb.2 o' v (value?_of_drop hb hv)⟩

/-- A table that is taken back drops the variable, or it writes what was recorded. -/
theorem restore_eq (b : Store) (o : Oid) (v : Value) : b.restore o v = if b.keeps v then b.write o v else b.drop o := by
  cases b with
  | scalar s => rfl
  | table t => by_cases hv : v = .null <;> simp [restore, keeps, write, Store.drop, hv]

theorem wellFormed_restore (hb : b.WellFormed) (o : Oid) (v : Value) : (b.restore o v).WellFormed := by
  rw [restore_eq]
  split
  · exact wellFormed_write hb o v
  · exact hb.drop o

/-- A search finds nothing, or it takes over what it finds. -/
theorem call_next_cases (b : Store) (who : Requester) (item : Item) :
    ManagedObject.call .next who item b = ⟨b, [], .ok false⟩ ∨
      ∃ o v, ManagedObject.call .next who item b = ⟨b, [.setBinding o v], .ok true⟩ := by
  cases b with
  | scalar s =>
    simp only [ManagedObject.call, ManagedObject.next, forward, Reaction.mapObject]
    split
    · exact Or.inr ⟨_, _, rfl⟩
    · exact Or.inl rfl
  | table t =>
    simp only [ManagedObject.call, ManagedObject.next, forward, Reaction.mapObject]
    split
    · exact Or.inr ⟨_, _, rfl⟩
    · exact Or.inl rfl

/-- What a call makes of a store: only a commit writes to it, and an undo where something was recorded. -/
theorem object_call (b : Store) (callback : Callback) (who : Requester) (item : Item) :
    (ManagedObject.call callback who item b).object =
      match callback, item.undoValue with
      | .commit, _ => b.write item.oid item.value
      | .undo, some v => b.restore item.oid v
      | _, _ => b := by
  cases callback with
  | get => rw [call_get]
  | next => rcases call_next_cases b who item with h | ⟨_, _, h⟩ <;> rw [h]
  | prepare => rw [call_prepare]
  | commit => rw [call_commit]
  | undo =>
    cases hundo : item.undoValue with
    | none => rw [call_undo_of_none _ _ _ hundo]
    | some v => rw [call_undo_of_some _ _ _ hundo]
  | cleanup => rw [call_cleanup]

/-- What is kept by writing, by taking back and by dropping is kept by every change. -/
theorem after_kept {motive : Store → Prop} (hb : motive b) (change : Change)
    (hwrite : ∀ o v, (change = .put o v ∨ ∃ who item, change = .call .commit who item ∧ item.oid = o ∧ item.value = v) →
      motive (b.write o v))
    (hrestore : ∀ o v, motive (b.restore o v)) (hdrop : ∀ o, motive (b.drop o)) : motive (b.after change) := by
  cases change with
  | put o v => exact hwrite o v (Or.inl rfl)
  | drop o => exact hdrop o
  | call callback who item =>
    rw [after, object_call]
    split
    · exact hwrite _ _ (Or.inr ⟨who, item, rfl, rfl, rfl⟩)
    · exact hrestore _ _
    · exact hb

theorem WellFormed.after (hb : b.WellFormed) (change : Change) : (b.after change).WellFormed :=
  after_kept hb change (fun o v _ => wellFormed_write hb o v) (wellFormed_restore hb) hb.drop

@[simp] theorem shell_after : (b.after change).shell = b.shell :=
  after_kept (motive := fun b' => b'.shell = b.shell) rfl change (fun _ _ _ => shell_write) (fun _ _ => shell_restore)
    fun _ => shell_drop

theorem Reached.wellFormed (hb : b.Reached) : b.WellFormed := by
  induction hb with
  | scalar s => trivial
  | table root access => exact ⟨OidMap.sorted_empty, fun o v hv => by cases hv⟩
  | after _ change ih => exact ih.after change

/-! ### What can be recorded -/

theorem Recordable.write (h : b.Recordable o) (hb : b.WellFormed) (hv : o' = o → b.keeps v = true) :
    (b.write o' v).Recordable o := by
  intro w hw
  rw [keeps_of_shell shell_write]
  cases b with
  | scalar s => rfl
  | table t =>
    cases ho : t.holds o' with
    | true =>
      rw [value?_write hb ho] at hw
      split at hw
      · next heq => exact Option.some.inj hw ▸ hv heq.symm
      · exact h w hw
    | false =>
      rw [write_of_not_holds ho] at hw
      exact h w hw

theorem Recordable.drop (h : b.Recordable o) (hb : b.WellFormed) (o' : Oid) : (b.drop o').Recordable o := by
  intro w hw
  rw [keeps_of_shell shell_drop]
  exact h w (value?_of_drop hb hw)

theorem Recordable.restore (h : b.Recordable o) (hb : b.WellFormed) (o' : Oid) (v : Value) :
    (b.restore o' v).Recordable o := by
  rw [restore_eq]
  split
  · next hv => exact h.write hb fun _ => hv
  · exact h.drop hb o'

theorem Recordable.after (h : b.Recordable o) (hb : b.WellFormed) (hspares : change.Spares b o) :
    (b.after change).Recordable o := by
  refine after_kept (motive := fun b => b.Recordable o) h change (fun o' v hwhat => h.write hb ?_) (h.restore hb)
    (h.drop hb)
  rcases hwhat with rfl | ⟨who, item, rfl, rfl, rfl⟩
  · exact hspares
  · exact hspares rfl

theorem Recordable.afterAll (h : b.Recordable o) (hb : b.WellFormed) {changes : List Change}
    (hspares : ∀ change ∈ changes, change.Spares b o) :
    (b.afterAll changes).WellFormed ∧ (b.afterAll changes).Recordable o := by
  induction changes generalizing b with
  | nil => exact ⟨hb, h⟩
  | cons change changes ih =>
    obtain ⟨hfirst, hrest⟩ := List.forall_mem_cons.mp hspares
    refine ih (h.after hb hfirst) (hb.after change) fun other hother => ?_
    exact (spares_of_shell shell_after).mpr (hrest other hother)

/-- A store lets no new value pass where null is held: it would have to be null, too. -/
theorem recordable_of_passes (hb : b.WellFormed) (h : b.passes x = true) : b.Recordable x.oid := by
  intro v hv
  cases b with
  | scalar s => rfl
  | table t =>
    have hin : (ManagedObject.region (table t)).contains x.oid = true := by
      have hunder := (Bool.and_eq_true_iff.mp (hb.2 _ v hv)).1
      simpa [ManagedObject.region, Region.subtree, Region.everywhere] using hunder
    exact (fits_of_passes hb hin h).recorded v hv

/-! ### Taking back -/

/-- What is taken back to what was recorded is as it was. -/
theorem restore_write (hb : b.WellFormed) (h : b.Recordable o) (v : Value) :
    (b.write o v).restore o (b.record o) = b := by
  cases b with
  | scalar s => rfl
  | table t =>
    cases ho : t.holds o with
    | true =>
      have ho' : ((table t).write o v).holds o = true := (holds_of_shell shell_write).symm ▸ ho
      refine eq_of_value? (wellFormed_restore (hb.write ho) _ _) hb (shell_restore.trans shell_write) fun o' => ?_
      rw [value?_restore (hb.write ho) ho', restored_of_shell shell_write, value?_write hb ho,
        record_eq (b := table t) ho]
      split
      · next heq => rw [heq, restored_record (b := table t) ho h]
      · rfl
    | false =>
      -- Nothing was written, and what is dropped is not there.
      have hnone : (table t).value? o = none := by
        cases hv : (table t).value? o with
        | none => rfl
        | some w => exact absurd ((hb.2 o w hv).symm.trans ho) (by decide)
      have hdropped : (table t).restore o ((table t).record o) = (table t).drop o := by
        simp [restore, record, Table.replaced?, ho, Store.drop]
      rw [write_of_not_holds ho, hdropped]
      refine eq_of_value? (hb.drop o) hb shell_drop fun o' => ?_
      rw [value?_table_drop hb]
      split
      · next heq => rw [heq, hnone]
      · rfl

/-! ### Calls for one item -/

/-- A call for an item: what becomes of both, the item and the store. -/
def serve (who : Requester) (x : Item × Store) (callback : Callback) : Item × Store :=
  let reaction := ManagedObject.call callback who x.1 x.2
  (x.1.editAll reaction.edits, reaction.object)

/-- Calls for an item, the first one first. -/
def serveAll (who : Requester) (x : Item × Store) (callbacks : List Callback) : Item × Store :=
  callbacks.foldl (serve who) x

variable {who : Requester} {item : Item}

theorem serve_commit : serve who (item, b) .commit =
    ({ item with undoValue := some (b.record item.oid) }, b.write item.oid item.value) := by
  rw [serve, call_commit]
  rfl

theorem serve_undo (h : item.undoValue = some v) : serve who (item, b) .undo =
    ({ item with undoValue := none }, b.restore item.oid v) := by
  rw [serve, call_undo_of_some _ _ _ h]
  rfl

/-- As long as nothing is recorded, only a commit changes the store, or records something. -/
theorem serve_of_ne_commit (h : item.undoValue = none) {callback : Callback} (hne : callback ≠ .commit) :
    (serve who (item, b) callback).1.undoValue = none ∧ (serve who (item, b) callback).2 = b := by
  rw [serve]
  constructor
  · cases callback with
    | commit => exact absurd rfl hne
    | get =>
      rw [call_get]
      exact h
    | next =>
      rcases call_next_cases b who item with hcall | ⟨_, _, hcall⟩ <;> rw [hcall] <;> exact h
    | prepare =>
      rw [call_prepare]
      exact (editAll_objection b item item.binding).2.2.2.2.1.trans h
    | undo =>
      rw [call_undo_of_none _ _ _ h]
      exact h
    | cleanup =>
      rw [call_cleanup]
      exact h
  · rw [object_call, h]
    cases callback <;> first | rfl | exact absurd rfl hne

theorem serveAll_of_not_mem (h : item.undoValue = none) {callbacks : List Callback} (hcallbacks : .commit ∉ callbacks) :
    (serveAll who (item, b) callbacks).2 = b := by
  induction callbacks generalizing item b with
  | nil => rfl
  | cons callback callbacks ih =>
    rw [List.mem_cons, not_or] at hcallbacks
    obtain ⟨hne, hrest⟩ := hcallbacks
    obtain ⟨hnone, hsame⟩ : (serve who (item, b) callback).1.undoValue = none ∧ (serve who (item, b) callback).2 = b :=
      serve_of_ne_commit h (Ne.symm hne)
    exact (ih hnone hrest).trans hsame

/-- What is prepared without an error is what the store lets pass. -/
theorem serve_prepare (h : (serve who (item, b) .prepare).1.hasError = false) :
    (serve who (item, b) .prepare).2 = b ∧ (serve who (item, b) .prepare).1.binding = item.binding ∧
      (serve who (item, b) .prepare).1.undoValue = item.undoValue ∧ b.passes item.binding = true := by
  simp only [serve, call_prepare] at h ⊢
  obtain ⟨-, -, hbinding, -, hundo, -, herror, -⟩ := editAll_objection b item item.binding
  rw [h, eq_comm, Bool.or_eq_false_iff] at herror
  exact ⟨trivial, hbinding, hundo, by simp [passes, herror.2]⟩

/-- Whatever a store has come to, and whatever is done after an item was prepared on it without an error and before it
is committed, as long as nothing is put into its variable that could not be recorded: a commit and an undo of the item
leave the store just as it was before the commit. After that, and before any commit, no undo of the item changes
anything. -/
theorem undone_of_prepared (hb : b.Reached) (hprepared : (serve who (item, b) .prepare).1.hasError = false)
    (between : List Change) (hbetween : ∀ change ∈ between, change.Spares b item.oid) :
    let prepared := (serve who (item, b) .prepare).1
    let before := (serve who (item, b) .prepare).2.afterAll between
    let undone := serveAll who (prepared, before) [.commit, .undo]
    undone.2 = before ∧
      (∀ now callbacks, .commit ∉ callbacks → (serveAll who (undone.1, now) callbacks).2 = now) ∧
        (item.undoValue = none →
          ∀ now callbacks, .commit ∉ callbacks → (serveAll who (prepared, now) callbacks).2 = now) := by
  intro prepared before undone
  obtain ⟨hsame, hbinding, hundo, hpasses⟩ := serve_prepare hprepared
  have hoid : prepared.oid = item.oid := congrArg Binding.oid hbinding
  obtain ⟨hbefore, hrecordable⟩ : before.WellFormed ∧ before.Recordable item.oid := by
    rw [show before = b.afterAll between from congrArg (afterAll · between) hsame]
    exact (recordable_of_passes hb.wellFormed hpasses).afterAll hb.wellFormed hbetween
  have hundone : undone = ({ prepared with undoValue := none }, before) := by
    show serve who (serve who (prepared, before) .commit) .undo = _
    rw [serve_commit, serve_undo rfl]
    exact congrArg (Prod.mk _) (restore_write hbefore (hoid ▸ hrecordable) _)
  refine ⟨by rw [hundone], fun now callbacks hnot => ?_, fun hnew now callbacks hnot => ?_⟩
  · exact serveAll_of_not_mem (by rw [hundone]) hnot
  · exact serveAll_of_not_mem (hundo.trans hnew) hnot

/-- A table with one variable, which lets others be created. -/
def notes : Store := (table (.empty ⟨[1, 3]⟩ .creating)).after (.put ⟨[1, 3, 1]⟩ (.integer 5))

/-- A value for a variable that is not there yet. -/
def jotting : Item := { index := 0, binding := ⟨⟨[1, 3, 2]⟩, .integer 7⟩, region := .point ⟨[1, 3, 2]⟩ }

/-- A variable is created, and it is gone after the first undo and after the second one. The other variable keeps what
it was given in the meantime. -/
theorem undone_of_jotting :
    let prepared := serve Set.writer (jotting, notes) .prepare
    let before := prepared.2.after (.put ⟨[1, 3, 1]⟩ (.integer 6))
    let undone := serveAll Set.writer (prepared.1, before) [.commit, .undo]
    (serve Set.writer (prepared.1, before) .commit).2.value? ⟨[1, 3, 2]⟩ = some (.integer 7) ∧
      undone.2 = before ∧ (serveAll Set.writer (undone.1, before) [.undo]).2 = before ∧
        (serveAll Set.writer (prepared.1, before) [.undo]).2 = before := by
  intro prepared before undone
  have hnotes : notes.Reached := .after (.table _ _) _
  have hprepared : prepared.1.hasError = false := by decide +kernel
  obtain ⟨hundone, hlater, hearlier⟩ := undone_of_prepared hnotes hprepared [.put ⟨[1, 3, 1]⟩ (.integer 6)]
    fun change hchange => List.mem_singleton.mp hchange ▸ by rintro ⟨⟩
  exact ⟨by decide +kernel, hundone, hlater before [.undo] (by decide), hearlier rfl before [.undo] (by decide)⟩

end Responder.Store
