import Responder.Object.Basic
import Responder.OidMap

/-! Tables: objects with any number of variables under a root. -/

namespace Responder

/-- What of a table can be written. -/
inductive TableAccess where
  | readOnly
  | existing
  | creating
deriving DecidableEq, Inhabited

/-- An object with variables under a root. -/
structure Table where
  root : Oid
  access : TableAccess
  values : OidMap Value

namespace Table

def empty (root : Oid) (access : TableAccess) : Table := ⟨root, access, .empty⟩

/-- Whether the table can hold the variable: it lies under the root and is not the root. -/
def holds (t : Table) (o : Oid) : Bool := o.isUnder t.root && o != t.root

/-- The table with a value for a variable that it can hold. -/
def insert (t : Table) (o : Oid) (value : Value) : Table :=
  if t.holds o then { t with values := t.values.insert o value } else t

/-- What `insert` puts the value in place of. -/
def replaced? (t : Table) (o : Oid) : Option Value := if t.holds o then t.values.get? o else none

def erase (t : Table) (o : Oid) : Table := { t with values := t.values.erase o }

/-- The error in writing an item's value to its variable, if there is one. -/
def objection (t : Table) (item : Item) : Option Status :=
  if t.access = .readOnly then some .notWritable
  else if item.value = .null ∨ item.value.isException then some .wrongType
  else match t.values.get? item.oid with
    | some current => if current.sameType item.value then none else some .wrongType
    | none =>
      if t.access ≠ .creating then some .noCreation
      else if item.oid = t.root then some .inconsistentName
      else none

instance : ManagedObject Table where
  region t := .subtree t.root
  find? t r := (t.values.firstIn? r.toRange).map (·.1)
  get _ item t :=
    { object := t, edits := [.setValue ((t.values.get? item.oid).getD .noSuchInstance)], result := .ok () }
  next _ item t :=
    match t.values.firstIn? item.region.toRange with
    | some (oid, value) => { object := t, edits := [.setBinding oid value], result := .ok true }
    | none => { object := t, result := .ok false }
  prepare _ item t :=
    { object := t, edits := (t.objection item).toList.map .setError, result := .ok () }
  commit _ item t :=
    { object := t.insert item.oid item.value, edits := [.setUndoValue ((t.replaced? item.oid).getD .null)],
      result := .ok () }
  undo _ item t :=
    match item.undoValue with
    | some .null => { object := t.erase item.oid, edits := [.takeUndoValue], result := .ok () }
    | some previous => { object := t.insert item.oid previous, edits := [.takeUndoValue], result := .ok () }
    | none => { object := t, result := .ok () }

end Table

end Responder
