import Responder.Object.Constant
import Responder.Object.Scalar
import Responder.Object.Scripted
import Responder.Object.Table

/-! Instruments: the managed objects of this library as one type, for agents that hold several kinds
    of them. -/

namespace Responder

/-- A managed object of any kind. -/
inductive Instrument where
  | scalar (s : Scalar)
  | table (t : Table)
  | constant (c : Constant)
  | scripted (s : Scripted)

namespace Instrument

instance : Inhabited Instrument := ⟨.constant ⟨default, default, default⟩⟩

/-- Calls the object with a method of its kind. -/
def forward {α : Type} (scalarDo : Scalar → Reaction Scalar α) (tableDo : Table → Reaction Table α)
    (constantDo : Constant → Reaction Constant α) (scriptedDo : Scripted → Reaction Scripted α) :
    Instrument → Reaction Instrument α
  | .scalar s => (scalarDo s).mapObject .scalar
  | .table t => (tableDo t).mapObject .table
  | .constant c => (constantDo c).mapObject .constant
  | .scripted s => (scriptedDo s).mapObject .scripted

open ManagedObject in
instance : ManagedObject Instrument where
  region
    | .scalar s => ManagedObject.region s
    | .table t => ManagedObject.region t
    | .constant c => ManagedObject.region c
    | .scripted s => ManagedObject.region s
  find?
    | .scalar s, r => ManagedObject.find? s r
    | .table t, r => ManagedObject.find? t r
    | .constant c, r => ManagedObject.find? c r
    | .scripted s, r => ManagedObject.find? s r
  get who item := forward (get who item) (get who item) (get who item) (get who item)
  next who item := forward (next who item) (next who item) (next who item) (next who item)
  prepare who item := forward (prepare who item) (prepare who item) (prepare who item) (prepare who item)
  commit who item := forward (commit who item) (commit who item) (commit who item) (commit who item)
  undo who item := forward (undo who item) (undo who item) (undo who item) (undo who item)
  cleanup who item := forward (cleanup who item) (cleanup who item) (cleanup who item) (cleanup who item)

end Instrument

end Responder
