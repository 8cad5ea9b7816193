/-! Time: lengths of time and points in time, counted in nanoseconds. -/

namespace Responder

/-- A length of time. -/
structure Duration where
  nanoseconds : Nat
deriving DecidableEq, Inhabited

namespace Duration

def seconds (n : Nat) : Duration := ⟨n * 1000000000⟩

def milliseconds (n : Nat) : Duration := ⟨n * 1000000⟩

def toMilliseconds (d : Duration) : Nat := d.nanoseconds / 1000000

def isZero (d : Duration) : Bool := d.nanoseconds == 0

end Duration

/-- A point in time. -/
structure Instant where
  nanoseconds : Nat
deriving DecidableEq, Inhabited

namespace Instant

instance : Ord Instant := ⟨fun a b => compare a.nanoseconds b.nanoseconds⟩

def plus (t : Instant) (d : Duration) : Instant := ⟨t.nanoseconds + d.nanoseconds⟩

def isBy (t now : Instant) : Bool := t.nanoseconds ≤ now.nanoseconds

def isBefore (t now : Instant) : Bool := t.nanoseconds < now.nanoseconds

def later (a b : Instant) : Instant := if a.isBy b then b else a

end Instant

end Responder
