import Responder.Value

/-! Variable bindings: the name of a variable together with a value. -/

namespace Responder

/-- A variable and its value. -/
structure Binding where
  oid : Oid
  value : Value
deriving DecidableEq, Inhabited

namespace Binding

/-- The binding of a variable whose value is asked for. -/
def unset (o : Oid) : Binding := ⟨o, .null⟩

def size (b : Binding) : Nat := Ber.elementSize (Ber.elementSize (Ber.oidSize b.oid) + b.value.size)

/-- The binding for the eye. -/
def text (b : Binding) : String := b.oid.text ++ " = " ++ b.value.text

/-- Octets of the content of the encoding of a list of bindings. -/
def totalSize (bs : List Binding) : Nat := bs.foldr (fun b n => b.size + n) 0

/-- Octets of the encoding of a whole list of bindings. -/
def listSize (bs : List Binding) : Nat := Ber.elementSize (totalSize bs)

end Binding

end Responder
