import Responder.Service.Basic

/-! Services that ask no object: they end a request at once, each in a way of its own, or do nothing
    about it. An agent can be given one in place of a standard service. -/

namespace Responder.Canned

/-- What a service does about every request. -/
inductive Deed where
  /-- It completes every item, with a value if one is given. -/
  | complete (value : Option Value)
  /-- It fails the request for want of resources. -/
  | fail
  /-- It leaves the request as it is and ends in an error. -/
  | refuse (reason : String)
  | nothing

/-- The request in its next phase, if it has one. -/
def moved (r : Request) : Request := r.advance?.getD r

/-- The item completed, with a value if one is given. -/
def filled (value : Option Value) (item : Item) : Item :=
  ((value.map fun v => item.setValue v).getD item).finish

/-- What becomes of a request. -/
def Deed.apply (r : Request) : Deed → Request × Option Error
  | complete value => ({ moved r with items := (moved r).items.map (filled value) }, none)
  | fail => ((moved r).fail .resourceUnavailable, none)
  | refuse reason => (r, some (.settings reason))
  | nothing => (r, none)

/-- The service for some kinds of requests that does the same about each of them. -/
def service {Obj : Type} (kinds : List Pdu.Kind) (deed : Deed) : Service Obj :=
  ⟨kinds.contains, fun _ _ r => return deed.apply r⟩

end Responder.Canned
