import Responder.Region.Basic
import Responder.Status

/-! What can go wrong outside a response: faults of instrumentation, and the errors that the
    operations of an agent return to their caller. -/

namespace Responder

/-- A fault that instrumentation raises while it serves a variable. -/
structure Fault where
  /-- The status it asks to be reported, if any. -/
  hint : Option Status
  message : String
deriving DecidableEq, Inhabited

/-- The status that a fault is reported with: its hint if that is an error, else the given one. -/
def Fault.statusOr (f : Fault) (status : Status) : Status :=
  match f.hint with
  | some hint => if hint.isError then hint else status
  | none => status

/-- An error that reaches the caller. -/
inductive Error where
  | invalidOid (cause : OidError)
  /-- An object cannot be registered under the region, as another one is in its way. -/
  | overlap (region : Region)
  /-- Instrumentation failed, and its faults are passed on. -/
  | instrumentation (oid : Oid) (fault : Fault)
  /-- A response could not be handed over, as nobody receives it any more. -/
  | undelivered
  /-- The settings make no agent. -/
  | settings (reason : String)
deriving DecidableEq

namespace Error

def undeliveredReason : String := "response channel closed"

def message : Error → String
  | invalidOid cause => "invalid OID: " ++ cause.reason
  | overlap region => "duplicate registration: " ++ region.text ++ " overlaps an existing entry"
  | instrumentation oid fault => "instrumentation fault at " ++ oid.text ++ ": " ++ fault.message
  | undelivered => "failed to send response: " ++ undeliveredReason
  | settings reason => "invalid configuration: " ++ reason

end Error

end Responder
