import Responder.Service.Basic

/-! What a view leaves of a query. A query that addresses one variable is authorized by that variable, a search by
    the first variable that the object has in the region of the search (`accepts_point`, `accepts_search`). -/

namespace Responder

namespace Policy

variable {p : Policy} {who : Requester}

/-- Whether somebody may touch a variable. Without access control, or without a view, everybody may. -/
def allows (p : Policy) (who : Requester) (o : Oid) : Bool :=
  match p.access, who.view with
  | some tables, some name => tables.allows name o
  | _, _ => true

@[simp] theorem allows_query (p : Policy) (who : Requester) (region : Region) (writes : Bool) :
    (p.query who region writes).allows = p.allows who := by
  funext o
  unfold Query.allows query allows
  cases p.access <;> cases who.view <;> rfl

theorem allows_of_view {tables : Vacm.Tables} {name : Octets} (haccess : p.access = some tables)
    (hview : who.view = some name) : p.allows who = tables.allows name := by
  funext o
  rw [allows, haccess, hview]

theorem allows_of_open (haccess : p.access = none) : p.allows who = fun _ => true := by
  funext o
  rw [allows, haccess]

end Policy

namespace Query

variable {Obj : Type} [ManagedObject Obj] {q : Query}

theorem isSearch_of_upper (hupper : q.region.upper = none) : q.isSearch = !q.region.lowerIncluded := by
  simp [isSearch, hupper]

/-- A search accepts the objects that have something left in its region, the first of which it may touch. -/
theorem accepts_search (hupper : q.region.upper = none) (hlower : q.region.lowerIncluded = false) (object : Obj) :
    q.accepts object = (ManagedObject.find? object q.region).any q.allows := by
  rw [accepts, isSearch_of_upper hupper, hlower]
  cases ManagedObject.find? object q.region <;> rfl

/-- Where the lower end belongs to the region, nothing but that end is authorized. -/
theorem accepts_point (hlower : q.region.lowerIncluded = true) (object : Obj) :
    q.accepts object = q.allows q.region.lower := by
  simp [accepts, isSearch, hlower]

end Query
end Responder
