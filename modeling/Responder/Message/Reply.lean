import Responder.Counters
import Responder.Pdu

/-! The final form of responses: what the first version of the protocol can carry, what fits the size
    that the requester accepts, and reports of counters. -/

namespace Responder.Reply

/-- The first binding with a marker for a value, at its place. -/
def firstException? (bs : List Binding) : Option Nat := bs.findIdx? fun b => b.value.isException

/-- The response with one value replaced by nothing. -/
def clearValue (p : Pdu) (index : Nat) : Pdu :=
  { p with bindings := p.bindings.modify index fun b => { b with value := .null } }

/-- A response as the first version of the protocol knows it: with one of its statuses, and with a missing
name in place of the first marker. -/
def forV1 (p : Pdu) : Pdu :=
  match firstException? p.bindings with
  | some index =>
    { clearValue p index with
      errorStatus := Status.noSuchName.code
      errorIndex := if index + 1 ≤ 2147483647 then Int32.ofNat (index + 1) else Int32.maxValue }
  | none => { p with errorStatus := p.status.forV1.code }

/-- The greatest number up to `n` that passes a test, or zero. -/
def greatest (test : Nat → Bool) : Nat → Nat
  | 0 => 0
  | n + 1 => if test (n + 1) then n + 1 else greatest test n

def cut (p : Pdu) (count : Nat) : Pdu := { p with bindings := p.bindings.take count }

/-- The response without bindings, reporting that it was too big. -/
def tooBig (p : Pdu) : Pdu := { p with bindings := [], errorStatus := Status.tooBig.code, errorIndex := 0 }

/-- A response that does not fit, made smaller: the answer to a bulk request loses bindings from its end,
any other loses all of them, and reports stay as they are. -/
def shrink (p : Pdu) (bulk : Bool) (maxSize : Nat) : Pdu :=
  if p.kind = .report then p
  else if bulk then cut p (greatest (fun n => (cut p n).size ≤ maxSize) p.bindings.length)
  else tooBig p

/-- The response in a form that fits, if there is one. -/
def fit? (p : Pdu) (bulk : Bool) (maxSize : Nat) : Option Pdu :=
  if p.size ≤ maxSize then some p
  else
    let p := shrink p bulk maxSize
    if p.size ≤ maxSize then some p else none

/-- The report of a counter's value, in answer to a request. -/
def report (request : Pdu) (counter : Counter) (value : UInt32) : Pdu :=
  ⟨.report, request.requestId, 0, 0, [⟨counter.oid, .counter32 value⟩]⟩

end Responder.Reply
