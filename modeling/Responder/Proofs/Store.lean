import Responder.Object.Instrument
import Responder.Proofs.Registry
import Responder.State

/-! Stores: the objects that hold what is written to them. What a store holds is what `value?` says of each
    variable; everything else about it is its `shell`, which no write changes. A write changes one variable,
    and what it records of the variable is what a roll-back of the write needs (`restored_record`). -/

namespace Responder

/-- An object that holds what is written to it. -/
inductive Store where
  | scalar (s : Scalar)
  | table (t : Table)

namespace Store

/-- Calls the object with a method of its kind. -/
def forward {α : Type} (scalarDo : Scalar → Reaction Scalar α) (tableDo : Table → Reaction Table α) :
    Store → Reaction Store α
  | .scalar s => (scalarDo s).mapObject .scalar
  | .table t => (tableDo t).mapObject .table

open ManagedObject in
instance : ManagedObject Store where
  region
    | .scalar s => ManagedObject.region s
    | .table t => ManagedObject.region t
  find?
    | .scalar s, r => ManagedObject.find? s r
    | .table t, r => ManagedObject.find? t r
  get who item := forward (get who item) (get who item)
  next who item := forward (next who item) (next who item)
  prepare who item := forward (prepare who item) (prepare who item)
  commit who item := forward (commit who item) (commit who item)
  undo who item := forward (undo who item) (undo who item)
  cleanup who item := forward (cleanup who item) (cleanup who item)

/-- What a variable holds. -/
def value? : Store → Oid → Option Value
  | .scalar s, o => if o = s.oid then some s.value else none
  | .table t, o => t.values.get? o

/-- Why a variable cannot have a value, if it cannot. -/
def objection : Store → Binding → Option Status
  | .scalar s, x => s.objection { index := 0, binding := x, region := .point x.oid }
  | .table t, x => t.objection { index := 0, binding := x, region := .point x.oid }

/-- The store with a value for a variable. -/
def write : Store → Oid → Value → Store
  | .scalar s, _, v => .scalar { s with value := v }
  | .table t, o, v => .table (t.insert o v)

/-- What a write records of the variable. A variable that is not there yet is recorded as nothing. -/
def record : Store → Oid → Value
  | .scalar s, _ => s.value
  | .table t, o => (t.replaced? o).getD .null

/-- The store with a variable taken back to what was recorded of it. -/
def restore : Store → Oid → Value → Store
  | .scalar s, _, v => .scalar { s with value := v }
  | .table t, o, v => if v = .null then .table (t.erase o) else .table (t.insert o v)

/-- The store apart from what it holds. -/
def shell : Store → Store
  | .scalar s => .scalar { s with value := .null }
  | .table t => .table { t with values := .empty }

/-- Whether the variable is one that the store can hold. -/
def holds : Store → Oid → Bool
  | .scalar s, o => o = s.oid
  | .table t, o => t.holds o

/-- Whether the value can stand for itself where it is recorded. -/
def keeps : Store → Value → Bool
  | .scalar _, _ => true
  | .table _, v => v ≠ .null

/-- What a variable holds after it was taken back to a recorded value. -/
def restored : Store → Value → Option Value
  | .scalar _, v => some v
  | .table _, v => if v = .null then none else some v

/-- A table holds its variables in order, and only those that lie under its root. -/
def WellFormed : Store → Prop
  | .scalar _ => True
  | .table t => t.values.Sorted ∧ ∀ o v, t.values.get? o = some v → t.holds o = true

/-! ### Calls -/

section Call
variable (b : Store) (who : Requester) (item : Item)

@[simp] theorem call_prepare : ManagedObject.call .prepare who item b =
    ⟨b, (b.objection item.binding).toList.map .setError, .ok true⟩ := by cases b <;> rfl

@[simp] theorem call_commit : ManagedObject.call .commit who item b =
    ⟨b.write item.oid item.value, [.setUndoValue (b.record item.oid)], .ok true⟩ := by cases b <;> rfl

theorem call_undo_of_some {v : Value} (h : item.undoValue = some v) : ManagedObject.call .undo who item b =
    ⟨b.restore item.oid v, [.takeUndoValue], .ok true⟩ := by
  obtain ⟨_, _, _, _, _, _, _, _, undoValue⟩ := item
  cases h
  cases b with
  | scalar s => rfl
  | table t => cases v <;> rfl

theorem call_undo_of_none (h : item.undoValue = none) : ManagedObject.call .undo who item b = ⟨b, [], .ok true⟩ := by
  obtain ⟨_, _, _, _, _, _, _, _, undoValue⟩ := item
  cases h
  cases b <;> rfl

@[simp] theorem call_get : ManagedObject.call .get who item b =
    ⟨b, [.setValue ((b.value? item.oid).getD .noSuchInstance)], .ok true⟩ := by
  cases b with
  | scalar s =>
    simp only [ManagedObject.call, ManagedObject.get, forward, Reaction.mapObject, Reaction.mapResult, value?]
    split <;> rfl
  | table t => rfl

/-- A search in which the store has found a variable takes it over. -/
theorem call_next {o : Oid} (hb : b.WellFormed) (h : ManagedObject.find? b item.region = some o) :
    ∃ v, b.value? o = some v ∧ ManagedObject.call .next who item b = ⟨b, [.setBinding o v], .ok true⟩ := by
  cases b with
  | scalar s =>
    obtain ⟨hin, ho⟩ := Option.ite_none_right_eq_some.mp h
    obtain rfl : s.oid = o := Option.some.inj ho
    refine ⟨s.value, by simp [value?], ?_⟩
    have hcall : ManagedObject.call .next who item s = ⟨s, [.setBinding s.oid s.value], .ok true⟩ := if_pos hin
    show (ManagedObject.call .next who item s).mapObject Store.scalar = _
    rw [hcall]
    rfl
  | table t =>
    obtain ⟨⟨o, v⟩, hfirst, rfl⟩ := Option.map_eq_some_iff.mp h
    have hmem := ((OidMap.firstIn?_eq_some_iff hb.1).mp hfirst).1
    refine ⟨v, (OidMap.get?_eq_some_iff hb.1).mpr hmem, ?_⟩
    simp only [ManagedObject.call, ManagedObject.next, forward, hfirst, Reaction.mapObject]

@[simp] theorem call_cleanup : ManagedObject.call .cleanup who item b = ⟨b, [], .ok true⟩ := by cases b <;> rfl

end Call

/-! ### What a store holds -/

section Laws
variable {b b' : Store} {o o' : Oid} {v : Value} {x : Binding}

@[simp] theorem shell_write : (b.write o v).shell = b.shell := by
  cases b with
  | scalar s => rfl
  | table t =>
    simp only [write, Table.insert]
    split <;> rfl

@[simp] theorem shell_restore : (b.restore o v).shell = b.shell := by
  cases b with
  | scalar s => rfl
  | table t =>
    simp only [restore, Table.insert]
    split
    · rfl
    · split <;> rfl

theorem holds_of_shell (h : b.shell = b'.shell) : b.holds = b'.holds := by
  funext o
  cases b <;> cases b' <;>
    simp only [shell, scalar.injEq, table.injEq, Scalar.mk.injEq, Table.mk.injEq, reduceCtorEq] at h
  · simp [holds, h]
  · simp [holds, Table.holds, h]

theorem region_of_shell (h : b.shell = b'.shell) : ManagedObject.region b = ManagedObject.region b' := by
  cases b <;> cases b' <;>
    simp only [shell, scalar.injEq, table.injEq, Scalar.mk.injEq, Table.mk.injEq, reduceCtorEq] at h
  · simp [ManagedObject.region, Scalar.region, h]
  · simp [ManagedObject.region, h]

theorem restored_of_shell (h : b.shell = b'.shell) : b.restored = b'.restored := by
  cases b <;> cases b' <;> simp only [shell, reduceCtorEq] at h <;> rfl

/-- A write changes one variable, and nothing else. -/
theorem value?_write (hb : b.WellFormed) (ho : b.holds o = true) :
    (b.write o v).value? o' = if o' = o then some v else b.value? o' := by
  cases b with
  | scalar s =>
    simp only [holds, decide_eq_true_eq] at ho
    subst ho
    simp only [write, value?]
    split <;> rfl
  | table t =>
    have ho : t.holds o = true := ho
    simp only [write, Table.insert, ho, if_true, value?]
    exact OidMap.get?_insert hb.1

theorem value?_restore (hb : b.WellFormed) (ho : b.holds o = true) :
    (b.restore o v).value? o' = if o' = o then b.restored v else b.value? o' := by
  cases b with
  | scalar s => exact value?_write hb ho
  | table t =>
    have ho : t.holds o = true := ho
    simp only [restore, restored, Table.insert, Table.erase, ho, if_true]
    split
    · exact OidMap.get?_erase hb.1
    · exact OidMap.get?_insert hb.1

theorem WellFormed.write (hb : b.WellFormed) (ho : b.holds o = true) : (b.write o v).WellFormed := by
  cases b with
  | scalar s => trivial
  | table t =>
    have ho : t.holds o = true := ho
    simp only [Store.write, Table.insert, ho, if_true]
    refine ⟨hb.1.insert o v, fun o' w hw => ?_⟩
    rw [OidMap.get?_insert hb.1] at hw
    split at hw
    · next heq => exact heq ▸ ho
    · exact hb.2 o' w hw

theorem WellFormed.restore (hb : b.WellFormed) (ho : b.holds o = true) : (b.restore o v).WellFormed := by
  cases b with
  | scalar s => trivial
  | table t =>
    simp only [Store.restore]
    split
    · refine ⟨hb.1.erase o, fun o' w hw => ?_⟩
      simp only [Table.erase, OidMap.get?_erase hb.1] at hw
      split at hw
      · cases hw
      · exact hb.2 o' w hw
    · exact hb.write ho

/-- A call changes nothing of a store but the variable that is written or taken back, and that one only if it is
one that the store can hold. -/
theorem call_changes (hb : b.WellFormed) (callback : Callback) (who : Requester) (item : Item)
    (hholds : callback = .commit ∨ callback = .undo → b.holds item.oid = true) :
    (ManagedObject.call callback who item b).object.WellFormed ∧
      (ManagedObject.call callback who item b).object.shell = b.shell ∧
        ∀ o, (ManagedObject.call callback who item b).object.value? o ≠ b.value? o →
          o = item.oid ∧ (callback = .commit ∨ callback = .undo) := by
  have hkept (heq : (ManagedObject.call callback who item b).object = b) :
      (ManagedObject.call callback who item b).object.WellFormed ∧
        (ManagedObject.call callback who item b).object.shell = b.shell ∧
          ∀ o, (ManagedObject.call callback who item b).object.value? o ≠ b.value? o →
            o = item.oid ∧ (callback = .commit ∨ callback = .undo) := by
    rw [heq]
    exact ⟨hb, rfl, fun o ho => absurd rfl ho⟩
  cases callback with
  | get => exact hkept (by rw [call_get])
  | next =>
    refine hkept ?_
    cases b with
    | scalar s =>
      simp only [ManagedObject.call, ManagedObject.next, forward, Reaction.mapObject]
      split <;> rfl
    | table t =>
      simp only [ManagedObject.call, ManagedObject.next, forward, Reaction.mapObject]
      split <;> rfl
  | prepare => exact hkept (by rw [call_prepare])
  | cleanup => exact hkept (by rw [call_cleanup])
  | commit =>
    have ho := hholds (Or.inl rfl)
    rw [call_commit]
    refine ⟨hb.write ho, shell_write, fun o hne => ⟨Classical.byContradiction fun h => hne ?_, Or.inl rfl⟩⟩
    rw [value?_write hb ho, if_neg h]
  | undo =>
    cases hundo : item.undoValue with
    | none => exact hkept (by rw [call_undo_of_none _ _ _ hundo])
    | some v =>
      have ho := hholds (Or.inr rfl)
      rw [call_undo_of_some _ _ _ hundo]
      refine ⟨hb.restore ho, shell_restore, fun o hne => ⟨Classical.byContradiction fun h => hne ?_, Or.inr rfl⟩⟩
      rw [value?_restore hb ho, if_neg h]

theorem record_eq (ho : b.holds o = true) : b.record o = (b.value? o).getD .null := by
  cases b with
  | scalar s =>
    have ho : o = s.oid := by simpa [holds] using ho
    simp [record, value?, ho]
  | table t =>
    have ho : t.holds o = true := ho
    simp [record, value?, Table.replaced?, ho]

theorem restored_of_keeps (hv : b.keeps v = true) : b.restored v = some v := by
  cases b with
  | scalar s => rfl
  | table t =>
    have hv : v ≠ .null := by simpa [keeps] using hv
    simp [restored, hv]

/-- What was recorded of a variable takes it back to what it held. -/
theorem restored_record (ho : b.holds o = true) (hkeeps : ∀ v, b.value? o = some v → b.keeps v = true) :
    b.restored ((b.value? o).getD .null) = b.value? o := by
  cases hv : b.value? o with
  | some v => exact restored_of_keeps (hkeeps v hv)
  | none =>
    cases b with
    | scalar s =>
      have ho : o = s.oid := by simpa [holds] using ho
      simp [value?, ho] at hv
    | table t => simp [restored]

/-- Stores that differ in nothing but what they hold, and not in that, are equal. -/
theorem eq_of_value? (hb : b.WellFormed) (hb' : b'.WellFormed) (hshell : b.shell = b'.shell)
    (h : ∀ o, b.value? o = b'.value? o) : b = b' := by
  cases b with
  | scalar s =>
    cases b' with
    | table => simp [shell] at hshell
    | scalar s' =>
      obtain ⟨oid, value, writable, refusal⟩ := s
      obtain ⟨oid', value', writable', refusal'⟩ := s'
      simp only [shell, scalar.injEq, Scalar.mk.injEq, true_and] at hshell
      obtain ⟨rfl, rfl, rfl⟩ := hshell
      simpa [value?] using h oid
  | table t =>
    cases b' with
    | scalar => simp [shell] at hshell
    | table t' =>
      obtain ⟨root, access, values⟩ := t
      obtain ⟨root', access', values'⟩ := t'
      simp only [shell, table.injEq, Table.mk.injEq, and_true] at hshell
      obtain ⟨rfl, rfl⟩ := hshell
      exact congrArg (fun values => table ⟨root, access, values⟩) (OidMap.eq_of_get? hb.1 hb'.1 h)

theorem sameType_null (h : Value.sameType .null v = true) : v = .null := by
  cases v <;> first | rfl | cases h

/-- What a store lets pass, it can hold and take back: the variable, the new value, and the old one. -/
structure Fits (b : Store) (x : Binding) : Prop where
  holds : b.holds x.oid = true
  keeps : b.keeps x.value = true
  recorded : ∀ v, b.value? x.oid = some v → b.keeps v = true

/-- What the store has to say to a new value. -/
def verdict (b : Store) (x : Binding) : Status := (b.objection x).getD .noError

/-- Whether the store lets a new value pass. -/
def passes (b : Store) (x : Binding) : Bool := !(b.verdict x).isError

/-- What preparing makes of an item: an error, if the store has one to report. -/
theorem editAll_objection (b : Store) (i : Item) (x : Binding) :
    let after := i.editAll ((b.objection x).toList.map .setError)
    after.region = i.region ∧ after.target = i.target ∧ after.binding = i.binding ∧ after.prepared = i.prepared ∧
      after.undoValue = i.undoValue ∧ after.deferred = i.deferred ∧
        after.hasError = (i.hasError || (b.verdict x).isError) ∧
          (i.hasError = false → after.hasError = true → after.status = b.verdict x) := by
  unfold verdict
  cases b.objection x with
  | none => simp +contextual [Status.isError]
  | some status =>
    have hstatus (hi : i.hasError = false) : (i.setError status).status = status := by simp [Item.setError, hi]
    simp +contextual [Item.edit, hstatus]

/-- Once an item has been prepared, calls change no more of it than what it remembers of the variable. -/
theorem editAll_later {callback : Callback} (hlater : callback = .commit ∨ callback = .undo ∨ callback = .cleanup)
    (b : Store) (who : Requester) (i : Item) :
    let after := i.editAll (ManagedObject.call callback who i b).edits
    after.binding = i.binding ∧ after.hasError = i.hasError := by
  rcases hlater with rfl | rfl | rfl
  · rw [call_commit]
    exact ⟨rfl, rfl⟩
  · cases hundo : i.undoValue with
    | none =>
      rw [call_undo_of_none _ _ _ hundo]
      exact ⟨rfl, rfl⟩
    | some v =>
      rw [call_undo_of_some _ _ _ hundo]
      exact ⟨rfl, rfl⟩
  · rw [call_cleanup]
    exact ⟨rfl, rfl⟩

theorem fits_of_passes (hb : b.WellFormed) (hregion : (ManagedObject.region b).contains x.oid = true)
    (h : b.passes x = true) : b.Fits x := by
  cases b with
  | scalar s =>
    refine ⟨?_, rfl, fun _ _ => rfl⟩
    by_cases ho : x.oid = s.oid
    · simp [Store.holds, ho]
    · cases hw : s.writable <;>
        simp [passes, verdict, objection, Scalar.objection, Item.oid, hw, ho, Status.isError] at h
  | table t =>
    have hunder : x.oid.isUnder t.root = true := by
      simpa [ManagedObject.region, Region.subtree, Region.everywhere] using hregion
    have h : (!((t.objection { index := 0, binding := x, region := .point x.oid }).getD .noError).isError) = true := h
    unfold Table.objection at h
    split at h
    · cases h
    split at h
    · cases h
    next hvalue =>
    rw [not_or] at hvalue
    have hkeeps : x.value ≠ .null := hvalue.1
    split at h
    · next current hcurrent =>
      split at h
      · next htype =>
        refine ⟨hb.2 _ _ hcurrent, by simpa [Store.keeps] using hkeeps, fun v hv => ?_⟩
        cases hcurrent.symm.trans hv
        have hcurrent : current ≠ .null := by
          rintro rfl
          exact hkeeps (sameType_null htype)
        simpa [Store.keeps] using hcurrent
      · cases h
    · next hnone =>
      split at h
      · cases h
      · split at h
        · cases h
        · next hroot =>
          refine ⟨?_, by simpa [Store.keeps] using hkeeps, fun v hv => ?_⟩
          · have hroot : x.oid ≠ t.root := hroot
            simp [Store.holds, Table.holds, hunder, hroot]
          · cases hnone.symm.trans hv

end Laws

/-! ### Stores among other objects -/

/-- A type of objects that stores are among. -/
class Among (Obj : Type) [ManagedObject Obj] where
  /-- The store as an object. -/
  put : Store → Obj
  put_injective : Function.Injective put
  region_put : ∀ b, ManagedObject.region (put b) = ManagedObject.region b
  find?_put : ∀ b r, ManagedObject.find? (put b) r = ManagedObject.find? b r
  call_put : ∀ callback who item b, ManagedObject.call callback who item (put b) =
    (ManagedObject.call callback who item b).mapObject put

instance : Among Instrument where
  put
    | .scalar s => .scalar s
    | .table t => .table t
  put_injective b b' h := by
    cases b <;> cases b' <;> cases h <;> rfl
  region_put b := by cases b <;> rfl
  find?_put b r := by cases b <;> rfl
  call_put callback who item b := by cases b <;> cases callback <;> rfl

end Store

theorem State.call_put {Obj : Type} [ManagedObject Obj] [Store.Among Obj] {s : State Obj} {id : ObjectId} {b : Store}
    (h : s.objects id = Store.Among.put b) (callback : Callback) (who : Requester) (item : Item) :
    (s.call callback who id item).1 =
        (item.editAll (ManagedObject.call callback who item b).edits, (ManagedObject.call callback who item b).result) ∧
      (s.call callback who id item).2.objects id = Store.Among.put (ManagedObject.call callback who item b).object := by
  simp only [State.call, h, Store.Among.call_put]
  exact ⟨rfl, if_pos rfl⟩

end Responder
