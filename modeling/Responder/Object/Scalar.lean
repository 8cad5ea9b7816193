import Responder.Object.Basic

/-! Scalars: objects with a single variable. A scalar answers for everything under its object
    identifier, so that other instances of it are missing instances and not missing objects. -/

namespace Responder

/-- An object with one variable. -/
structure Scalar where
  oid : Oid
  value : Value
  writable : Bool
  /-- The status that a new value is refused with, if it is. -/
  refusal : Value → Option Status := fun _ => none

namespace Scalar

/-- Everything under the object identifier, which is the variable's without its last arc. -/
def region (s : Scalar) : Region := .subtree (s.oid.parent?.getD s.oid)

/-- The error in writing a value to the variable of an item, if there is one. -/
def objection (s : Scalar) (item : Item) : Option Status :=
  if !s.writable then some .notWritable
  else if item.oid ≠ s.oid then some .noCreation
  else if !item.value.sameType s.value then some .wrongType
  else s.refusal item.value

instance : ManagedObject Scalar where
  region := region
  find? s r := if r.contains s.oid then some s.oid else none
  get _ item s :=
    { object := s, edits := [.setValue (if item.oid = s.oid then s.value else .noSuchInstance)], result := .ok () }
  next _ item s :=
    if item.region.contains s.oid then { object := s, edits := [.setBinding s.oid s.value], result := .ok true }
    else { object := s, result := .ok false }
  prepare _ item s :=
    { object := s, edits := (s.objection item).toList.map .setError, result := .ok () }
  commit _ item s :=
    { object := { s with value := item.value }, edits := [.setUndoValue s.value], result := .ok () }
  undo _ item s :=
    match item.undoValue with
    | some previous => { object := { s with value := previous }, edits := [.takeUndoValue], result := .ok () }
    | none => { object := s, result := .ok () }

end Scalar

end Responder
