import Responder.Object.Instrument
import Responder.Written.Value

/-! Instruments as documents: of which kind they are, what they hold, and the scripts of those that
    play one. -/

namespace Responder

/-- The word or the record for one action of a script. -/
def Action.ofDocument : Document → Reading Action
  | .text "defer" => .ok { edits := [.defer] }
  | .text "decline" => .ok { declines := true }
  | .text "nothing" => .ok {}
  | .text _ => .ok { plain := true }
  | d => do
    let binding ← (d.member? "varbind" Binding.ofDocument).sequence
    let value ← (d.member? "value" Value.ofDocument).sequence
    let edits := (binding.toList.map fun b => .setBinding b.oid b.value) ++ value.toList.map .setValue ++
      ((d.member? "error" Status.ofDocument).toList.map .setError) ++ if d.flag "defer" then [.defer] else []
    return {
      plain := d.flag "normal", edits
      fault := d.member? "fault" fun message => ⟨d.member? "status" .ofDocument, message.textOr ""⟩ }

namespace Scripted

/-- Reads a script: a record of the actions for each callback. What it has for no callback is left out. -/
def scriptOfDocument (d : Document) : Reading (List (Callback × List Action)) := do
  let parts ← d.fields.mapM fun (name, actions) => do return (name, ← actions.items.mapM Action.ofDocument)
  return parts.filterMap fun (name, actions) => (Callback.ofName? name).map (·, actions)

/-- The object with more actions for each callback. -/
def extendAll (s : Scripted) (script : List (Callback × List Action)) : Scripted :=
  script.foldl (fun s entry => s.extend entry.1 entry.2) s

end Scripted

namespace Scalar

/-- Reads which values a scalar refuses, and with what status: those that are no octets or too many, or those
that are no integer or out of bounds. -/
def refusalOfDocument (d : Document) (value : Value) : Option Status :=
  if d.isNull then none
  else
    let fits : Bool := match d.member? "max_len" (·.naturalOr 0) with
      | some most => value.octets?.any fun octets => octets.length ≤ most
      | none =>
        value.integer?.any fun n =>
          (d.member "min").integerOr 0 ≤ n.toInt ∧ n.toInt ≤ (d.member "max").integerOr 0
    if fits then none else some (.ofDocument (d.member "status"))

end Scalar

namespace Instrument

def ofDocument (d : Document) : Reading Instrument := do
  let values : Reading (List (Oid × Value)) := do
    return (← d.bindingsOf "instances").map fun b => (b.oid, b.value)
  match d.textOf "kind" with
  | "scalar" =>
    return .scalar {
      oid := ← d.oidOf "oid", value := ← Value.ofDocument (d.member "value"), writable := d.flag "rw"
      refusal := Scalar.refusalOfDocument (d.member "validator") }
  | "subtree" =>
    let access : TableAccess := match d.textOf "mode" with
      | "rw" => .existing
      | "create" => .creating
      | _ => .readOnly
    let root ← d.oidOf "root"
    return .table ((← values).foldl (fun t row => t.insert row.1 row.2) (.empty root access))
  | "minimal" => return .constant ⟨← d.regionOf "scope", ← d.oidOf "oid", ← Value.ofDocument (d.member "value")⟩
  | "probe" =>
    let s : Scripted := ⟨← d.regionOf "scope", .ofList (← values), fun _ => []⟩
    return .scripted (s.extendAll (← Scripted.scriptOfDocument (d.member "script")))
  | _ => throw .malformed

/-- Whether the instrument plays a script. -/
def isScripted : Instrument → Bool
  | scripted _ => true
  | _ => false

end Instrument

end Responder
