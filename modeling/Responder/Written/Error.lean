import Responder.Error
import Responder.Written.Value

/-! Errors as documents: the kind of error, what it says in words, and what it is about. -/

namespace Responder

def OidError.toDocument (e : OidError) : Document :=
  let (kind, input) : Document × Document := match e with
    | invalidArc input => (.text "InvalidArc", .text input)
    | tooManyArcs count => (.list [.text "TooManyArcs", .natural count, .natural Oid.maxArcs], .null)
  .record [("error", .text "InvalidOid"), ("message", .text (Error.invalidOid e).message), ("kind", kind),
    ("input", input)]

def Error.toDocument (e : Error) : Document :=
  let about (kind : String) (more : List (String × Document)) : Document :=
    .record (("error", .text kind) :: ("message", .text e.message) :: more)
  match e with
  | invalidOid cause => cause.toDocument
  | overlap region => about "DuplicateRegistration" [("scope", region.toDocument)]
  | instrumentation oid fault =>
    about "Instrumentation" [("oid", oid.toDocument), ("source", .text fault.message),
      ("status", .ofOption Status.toDocument fault.hint)]
  | undelivered => about "Send" [("kind", .text "BrokenPipe")]
  | settings _ => about "Config" []

def Fault.toDocument (f : Fault) : Document :=
  .record [("error", .text "ObjectError"), ("message", .text f.message),
    ("status", .ofOption Status.toDocument f.hint)]

def Misreading.toDocument : Misreading → Document
  | malformed => .record [("error", .text "BadInput")]
  | identifier cause => cause.toDocument

end Responder
