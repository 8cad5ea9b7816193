import Responder.Object.Basic
import Responder.OidMap

/-! Scripted objects: a table of variables together with a script of what to do at each call. An
    object without a script left behaves as a plain table that can be written everywhere. -/

namespace Responder

/-- What a scripted object does at one call. -/
structure Action where
  /-- Whether it does what a plain table would do, before all else. -/
  plain : Bool := false
  edits : List Edit := []
  /-- Whether it says that it has nothing in the region of a search. -/
  declines : Bool := false
  fault : Option Fault := none
deriving Inhabited

/-- An object that plays a script. -/
structure Scripted where
  region : Region
  values : OidMap Value
  /-- The actions that are left for each callback. -/
  script : Callback → List Action

namespace Scripted

/-- What a plain table does at a call. -/
def plainly (s : Scripted) (callback : Callback) (item : Item) : Reaction Scripted Bool :=
  match callback with
  | .get =>
    { object := s, edits := [.setValue ((s.values.get? item.oid).getD .noSuchInstance)], result := .ok true }
  | .next =>
    match s.values.firstIn? item.region.toRange with
    | some (oid, value) => { object := s, edits := [.setBinding oid value], result := .ok true }
    | none => { object := s, result := .ok false }
  | .prepare | .cleanup => { object := s, result := .ok true }
  | .commit =>
    { object := { s with values := s.values.insert item.oid item.value },
      edits := [.setUndoValue ((s.values.get? item.oid).getD .null)], result := .ok true }
  | .undo =>
    match item.undoValue with
    | some .null =>
      { object := { s with values := s.values.erase item.oid }, edits := [.takeUndoValue], result := .ok true }
    | some previous =>
      { object := { s with values := s.values.insert item.oid previous }, edits := [.takeUndoValue],
        result := .ok true }
    | none => { object := s, result := .ok true }

/-- The object with the first action for a callback taken off its script. -/
def advance (s : Scripted) (callback : Callback) : Scripted :=
  { s with script := fun c => if c = callback then (s.script c).tail else s.script c }

/-- The object with more actions at the end of its script. -/
def extend (s : Scripted) (callback : Callback) (actions : List Action) : Scripted :=
  { s with script := fun c => if c = callback then s.script c ++ actions else s.script c }

def play (s : Scripted) (callback : Callback) (item : Item) (action : Action) : Reaction Scripted Bool :=
  let start : Reaction Scripted Bool :=
    if action.plain then s.plainly callback item else { object := s, result := .ok (!action.declines) }
  { object := start.object, edits := start.edits ++ action.edits,
    result := match action.fault with
      | some fault => .error fault
      | none => start.result }

/-- Plays the next action for a callback, or behaves plainly where none is left. -/
def react (s : Scripted) (callback : Callback) (item : Item) : Reaction Scripted Bool :=
  match s.script callback with
  | [] => s.plainly callback item
  | action :: _ => (s.advance callback).play callback item action

instance : ManagedObject Scripted where
  region s := s.region
  find? s r := (s.values.firstIn? r.toRange).map (·.1)
  get _ item s := (s.react .get item).mapResult fun _ => ()
  next _ item s := s.react .next item
  prepare _ item s := (s.react .prepare item).mapResult fun _ => ()
  commit _ item s := (s.react .commit item).mapResult fun _ => ()
  undo _ item s := (s.react .undo item).mapResult fun _ => ()
  cleanup _ item s := (s.react .cleanup item).mapResult fun _ => ()

end Scripted

end Responder
