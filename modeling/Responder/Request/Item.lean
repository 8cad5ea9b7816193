import Responder.Message.Envelope
import Responder.Region.Basic

/-! The items of a request, one for each variable, and the principal on whose behalf they are served.
    Instrumentation changes an item by edits only; its region, its target and whether it is prepared
    are kept by the agent. -/

namespace Responder

/-- A request while it is served: the owner of the locks that are taken for it. -/
structure TransactionId where
  number : Nat
deriving DecidableEq, Inhabited

/-- A managed object, apart from what it holds. -/
structure ObjectId where
  number : Nat
deriving DecidableEq, Inhabited

/-- Who asks, under which security parameters, and in which context. -/
structure Requester where
  peer : Endpoint
  version : Version
  model : SecurityModel
  securityName : Octets
  level : SecurityLevel
  engine : Octets
  context : Octets
  requestId : Int32
  kind : Pdu.Kind
  transaction : TransactionId
  view : Option Octets
deriving DecidableEq

/-- One variable of a request. -/
structure Item where
  /-- The place in the request and in its response. -/
  index : Nat
  /-- What was asked for at first, what was found in the end. -/
  binding : Binding
  /-- What is addressed: one variable, or what is left of a range to be searched. -/
  region : Region
  status : Status := .noError
  /-- Whether the current phase is over for the item. -/
  complete : Bool := false
  /-- Whether the item asks to be served again later. -/
  deferred : Bool := false
  /-- Whether the item was prepared without an error. -/
  prepared : Bool := false
  /-- The object that the item was prepared on. -/
  target : Option ObjectId := none
  /-- What the variable held before it was written. -/
  undoValue : Option Value := none
deriving DecidableEq

/-- What instrumentation may do to an item. -/
inductive Edit where
  | setValue (value : Value)
  | setBinding (oid : Oid) (value : Value)
  | setError (status : Status)
  | defer
  | complete
  | setUndoValue (value : Value)
  | takeUndoValue
deriving DecidableEq

namespace Item

def oid (i : Item) : Oid := i.binding.oid

def value (i : Item) : Value := i.binding.value

def hasError (i : Item) : Bool := i.status.isError

/-- The item with another value. -/
def setValue (i : Item) (value : Value) : Item := { i with binding := { i.binding with value } }

/-- The item with an error, unless it has one already: the first error stays. -/
def setError (i : Item) (status : Status) : Item := if i.hasError then i else { i with status }

/-- The item with its current phase over. -/
def finish (i : Item) : Item := { i with complete := true, deferred := false }

/-- The item, to be served again later. -/
def defer (i : Item) : Item := { i with deferred := true }

/-- The item at the start of a phase. -/
def restart (i : Item) : Item := { i with complete := false, deferred := false }

/-- The item after one edit. -/
def edit (i : Item) : Edit → Item
  | .setValue value => i.setValue value
  | .setBinding oid value => { i with binding := ⟨oid, value⟩ }
  | .setError status => i.setError status
  | .defer => i.defer
  | .complete => i.finish
  | .setUndoValue value => { i with undoValue := some value }
  | .takeUndoValue => { i with undoValue := none }

/-- The item after a list of edits, the first one first. -/
def editAll (i : Item) (edits : List Edit) : Item := edits.foldl edit i

/-- The item of the next repetition, at another place: it searches on from here. A marker is taken over as
its answer, and the item is complete with it. -/
def repetition (i : Item) (index : Nat) : Item :=
  let next : Item := { index, binding := .unset i.oid, region := (Region.after i.oid).inContext i.region.context }
  if i.value.isException then (next.setValue i.value).finish else next

section Frame

variable (i : Item) (status : Status) (e : Edit) (edits : List Edit)

/-- An error that is set changes nothing but the status. -/
theorem setError_eq : i.setError status = { i with status := if i.hasError then i.status else status } := by
  unfold setError
  split <;> rfl

@[simp] theorem setError_index : (i.setError status).index = i.index := by rw [setError_eq]

@[simp] theorem setError_binding : (i.setError status).binding = i.binding := by rw [setError_eq]

@[simp] theorem setError_region : (i.setError status).region = i.region := by rw [setError_eq]

@[simp] theorem setError_complete : (i.setError status).complete = i.complete := by rw [setError_eq]

@[simp] theorem setError_deferred : (i.setError status).deferred = i.deferred := by rw [setError_eq]

@[simp] theorem setError_prepared : (i.setError status).prepared = i.prepared := by rw [setError_eq]

@[simp] theorem setError_target : (i.setError status).target = i.target := by rw [setError_eq]

@[simp] theorem setError_undoValue : (i.setError status).undoValue = i.undoValue := by rw [setError_eq]

@[simp] theorem hasError_setError : (i.setError status).hasError = (i.hasError || status.isError) := by
  cases h : i.hasError
  · simp only [setError, h, Bool.false_or]
    rfl
  · simp [setError, h]

@[simp] theorem finish_index : i.finish.index = i.index := rfl

@[simp] theorem finish_complete : i.finish.complete = true := rfl

@[simp] theorem finish_deferred : i.finish.deferred = false := rfl

@[simp] theorem finish_prepared : i.finish.prepared = i.prepared := rfl

@[simp] theorem finish_region : i.finish.region = i.region := rfl

@[simp] theorem finish_target : i.finish.target = i.target := rfl

@[simp] theorem hasError_finish : i.finish.hasError = i.hasError := rfl

@[simp] theorem edit_index : (i.edit e).index = i.index := by cases e <;> first | rfl | exact i.setError_index _

@[simp] theorem edit_region : (i.edit e).region = i.region := by cases e <;> first | rfl | exact i.setError_region _

@[simp] theorem edit_prepared : (i.edit e).prepared = i.prepared := by
  cases e <;> first | rfl | exact i.setError_prepared _

@[simp] theorem edit_target : (i.edit e).target = i.target := by cases e <;> first | rfl | exact i.setError_target _

theorem hasError_edit (h : i.hasError = true) : (i.edit e).hasError = true := by
  cases e with
  | setError status => simp [edit, h]
  | _ => exact h

@[simp] theorem editAll_nil : i.editAll [] = i := rfl

@[simp] theorem editAll_cons : i.editAll (e :: edits) = (i.edit e).editAll edits := rfl

/-- What every edit keeps, a list of edits keeps. -/
theorem editAll_kept {α : Type} {f : Item → α} (h : ∀ i e, f (i.edit e) = f i) : f (i.editAll edits) = f i := by
  induction edits generalizing i with
  | nil => rfl
  | cons e edits ih => rw [editAll_cons, ih, h]

@[simp] theorem editAll_index : (i.editAll edits).index = i.index := i.editAll_kept edits edit_index

@[simp] theorem editAll_region : (i.editAll edits).region = i.region := i.editAll_kept edits edit_region

@[simp] theorem editAll_prepared : (i.editAll edits).prepared = i.prepared := i.editAll_kept edits edit_prepared

@[simp] theorem editAll_target : (i.editAll edits).target = i.target := i.editAll_kept edits edit_target

theorem hasError_editAll (h : i.hasError = true) : (i.editAll edits).hasError = true := by
  induction edits generalizing i with
  | nil => exact h
  | cons e edits ih => exact ih _ (i.hasError_edit e h)

end Frame

end Item

end Responder
