import Responder.Error
import Responder.Request.Item

/-! Managed objects: the instrumentation behind a region. An object is asked to read, to search and
    to write in two phases; each time it answers with edits to the item, with what has become of
    itself, and with a result or a fault. -/

namespace Responder

/-- What an object does when it is called: its new state, edits to the item, and a result or a fault. -/
structure Reaction (Obj α : Type) where
  object : Obj
  edits : List Edit := []
  result : Except Fault α

namespace Reaction

variable {Obj Other α β : Type}

/-- The reaction of an object that is part of another one. -/
def mapObject (f : Obj → Other) (r : Reaction Obj α) : Reaction Other α := ⟨f r.object, r.edits, r.result⟩

def mapResult (f : α → β) (r : Reaction Obj α) : Reaction Obj β := ⟨r.object, r.edits, r.result.map f⟩

end Reaction

/-- A type of managed objects. Only reading is required; an object that does not say otherwise refuses to
be written. -/
class ManagedObject (Obj : Type) where
  /-- What the object answers for. It is asked once, at registration. -/
  region : Obj → Region
  /-- The first variable of the object in a region. -/
  find? : Obj → Region → Option Oid
  /-- Reads the variable of the item. -/
  get : Requester → Item → Obj → Reaction Obj Unit
  /-- Reads the first variable in the region of the item, and says whether there is one. -/
  next : Requester → Item → Obj → Reaction Obj Bool
  /-- Checks a value without making it visible. -/
  prepare : Requester → Item → Obj → Reaction Obj Unit :=
    fun _ _ object => { object, edits := [.setError .notWritable], result := .ok () }
  /-- Writes a value that was checked. -/
  commit : Requester → Item → Obj → Reaction Obj Unit := fun _ _ object => { object, result := .ok () }
  /-- Takes back what was checked or written. -/
  undo : Requester → Item → Obj → Reaction Obj Unit := fun _ _ object => { object, result := .ok () }
  /-- Drops what was kept for the request. -/
  cleanup : Requester → Item → Obj → Reaction Obj Unit := fun _ _ object => { object, result := .ok () }

/-- What an object can be called for. -/
inductive Callback where
  | get
  | next
  | prepare
  | commit
  | undo
  | cleanup
deriving DecidableEq, Inhabited

namespace Callback

def all : List Callback := [get, next, prepare, commit, undo, cleanup]

def name : Callback → String
  | get => "get"
  | next => "next"
  | prepare => "prepare"
  | commit => "commit"
  | undo => "undo"
  | cleanup => "cleanup"

def ofName? (s : String) : Option Callback := all.find? fun callback => callback.name == s

end Callback

namespace ManagedObject

variable {Obj : Type} [ManagedObject Obj]

/-- Calls an object. Only a search has a result that says something. -/
def call (callback : Callback) (who : Requester) (item : Item) (object : Obj) : Reaction Obj Bool :=
  let done (r : Reaction Obj Unit) := r.mapResult fun _ => true
  match callback with
  | .get => done (get who item object)
  | .next => next who item object
  | .prepare => done (prepare who item object)
  | .commit => done (commit who item object)
  | .undo => done (undo who item object)
  | .cleanup => done (cleanup who item object)

end ManagedObject

end Responder
