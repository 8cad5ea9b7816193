import Responder.Object.Basic

/-! Constants: read-only objects that answer with one value, whatever the variable. -/

namespace Responder

/-- An object with one variable that can only be read. -/
structure Constant where
  region : Region
  oid : Oid
  value : Value

namespace Constant

instance : ManagedObject Constant where
  region c := c.region
  find? c r := if r.contains c.oid then some c.oid else none
  get _ _ c := { object := c, edits := [.setValue c.value], result := .ok () }
  next _ item c :=
    if item.region.contains c.oid then { object := c, edits := [.setBinding c.oid c.value], result := .ok true }
    else { object := c, result := .ok false }

end Constant

end Responder
