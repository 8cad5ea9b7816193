import Responder.Message.Security
import Responder.Vacm.View

/-! Access control by views. A principal belongs to a group; the access table gives the group views,
    depending on the context and on the model and level of security. -/

namespace Responder.Vacm

/-- What a view is used for. -/
inductive Purpose where
  | read
  | write
  | notify
deriving DecidableEq, Inhabited

namespace Purpose

def name : Purpose → String
  | read => "Read"
  | write => "Write"
  | notify => "Notify"

def ofName? (s : String) : Option Purpose := [read, write, notify].find? fun purpose => purpose.name == s

end Purpose

/-- How the context of a row is compared with that of a request. -/
inductive ContextMatch where
  | exact
  /-- The context of the request only has to begin with that of the row. -/
  | start
deriving DecidableEq, Inhabited

/-- A row of the access table. -/
structure AccessRow where
  group : Octets
  context : Octets := []
  contextMatch : ContextMatch := .exact
  model : SecurityModel := .any
  level : SecurityLevel := .noAuthNoPriv
  readView : Octets := []
  writeView : Octets := []
  notifyView : Octets := []
deriving DecidableEq, Inhabited

namespace AccessRow

def view (row : AccessRow) : Purpose → Octets
  | .read => row.readView
  | .write => row.writeView
  | .notify => row.notifyView

def isForContext (row : AccessRow) (context : Octets) : Bool :=
  match row.contextMatch with
  | .exact => row.context == context
  | .start => row.context.isPrefixOf context

/-- Whether the row is for requests of this group, context, model and level. -/
def isFor (row : AccessRow) (group context : Octets) (model : SecurityModel) (level : SecurityLevel) : Bool :=
  row.group == group && row.isForContext context && (row.model == model || row.model == .any) &&
    compare row.level level != .gt

/-- The order of preference among rows for one request, the preferred ones later: the model itself over
any model, an exact context over the start of one, a longer context, a higher level. -/
def order (model : SecurityModel) (a b : AccessRow) : Ordering :=
  (compare (a.model == model) (b.model == model)).then <|
  (compare (a.contextMatch == .exact) (b.contextMatch == .exact)).then <|
  (compare a.context.length b.context.length).then <|
  compare a.level b.level

end AccessRow

/-- The tables of access control. -/
structure Tables where
  /-- The group of a principal under a model; of two entries for one principal the later counts. -/
  groups : List ((SecurityModel × Octets) × Octets) := []
  rows : List AccessRow := []
  /-- The views by name; of two with one name the later counts. -/
  views : List (Octets × View) := []
deriving Inhabited

namespace Tables

/-- The value of the last entry with a key. -/
def last? {κ α : Type} [BEq κ] (entries : List (κ × α)) (key : κ) : Option α :=
  entries.reverse.lookup key

/-- The group of a principal: the one under its model, else the one under any model. -/
def group? (t : Tables) (model : SecurityModel) (name : Octets) : Option Octets :=
  (last? t.groups (model, name)).or (last? t.groups (.any, name))

/-- The row that counts for a request. -/
def row? (t : Tables) (group context : Octets) (model : SecurityModel) (level : SecurityLevel) :
    Option AccessRow :=
  lastGreatest? (AccessRow.order model) (t.rows.filter fun row => row.isFor group context model level)

def view? (t : Tables) (name : Octets) : Option View := last? t.views name

/-- The name of the view that a principal is given for a purpose. -/
def viewName? (t : Tables) (context name : Octets) (model : SecurityModel) (level : SecurityLevel)
    (purpose : Purpose) : Option Octets :=
  (t.group? model name).bind fun group =>
  (t.row? group context model level).bind fun row =>
  if (row.view purpose).isEmpty then none else some (row.view purpose)

/-- Whether an identifier is in the view with a name. -/
def allows (t : Tables) (view : Octets) (o : Oid) : Bool :=
  match t.view? view with
  | some v => v.contains o
  | none => false

end Tables

end Responder.Vacm
