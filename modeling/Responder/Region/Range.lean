import Responder.Oid.Text

/-! Ranges of object identifiers. Each end belongs to the range or not, and the upper end may be
    missing. What a range is about is `contains`; emptiness, overlap, inclusion and narrowing are
    decided from the ends alone. -/

namespace Responder

/-- A range of object identifiers. -/
structure Range where
  lower : Oid
  lowerIncluded : Bool
  /-- The upper end; without one the range goes on for ever. -/
  upper : Option Oid
  upperIncluded : Bool
deriving DecidableEq, Inhabited

namespace Range

def point (o : Oid) : Range := ⟨o, true, some o, true⟩

def after (o : Oid) : Range := ⟨o, false, none, false⟩

/-- Everything under a root, the root included. -/
def subtree (root : Oid) : Range := ⟨root, true, root.nextPeer?, false⟩

/-- Whether the range starts at or below the identifier. -/
def startsBy (r : Range) (o : Oid) : Bool :=
  match compare o r.lower with
  | .gt => true
  | .eq => r.lowerIncluded
  | .lt => false

/-- Whether the range still goes on at the identifier. -/
def reaches (r : Range) (o : Oid) : Bool :=
  match r.upper with
  | none => true
  | some upper =>
    match compare o upper with
    | .lt => true
    | .eq => r.upperIncluded
    | .gt => false

def contains (r : Range) (o : Oid) : Bool := r.startsBy o && r.reaches o

/-- Whether anything lies between the lower end of `a` and the upper end of `b`. Between an identifier
    and its successor there is nothing. -/
def opensBefore (a b : Range) : Bool :=
  match b.upper with
  | none => true
  | some upper =>
    match compare a.lower upper with
    | .lt => a.lowerIncluded || b.upperIncluded || upper != a.lower.successor
    | .eq => a.lowerIncluded && b.upperIncluded
    | .gt => false

/-- Whether no identifier lies in the range. -/
def isEmpty (r : Range) : Bool := !r.opensBefore r

/-- Whether some identifier lies in both ranges. -/
def meets (a b : Range) : Bool :=
  !a.isEmpty && !b.isEmpty && a.opensBefore b && b.opensBefore a

/-- Whether the range covers another one end by end. An empty range is covered by all. -/
def covers (a b : Range) : Bool :=
  b.isEmpty || (lowerCovers && upperCovers)
where
  lowerCovers : Bool :=
    match compare a.lower b.lower with
    | .lt => true
    | .eq => a.lowerIncluded || !b.lowerIncluded
    | .gt => false
  upperCovers : Bool :=
    match a.upper, b.upper with
    | none, _ => true
    | some _, none => false
    | some mine, some theirs =>
      match compare mine theirs with
      | .gt => true
      | .eq => a.upperIncluded || !b.upperIncluded
      | .lt => false

/-- Whether the range is one identifier, given by its ends. -/
def isPoint (r : Range) : Bool := r.lowerIncluded && r.upperIncluded && r.upper == some r.lower

/-- What is left of a range above another one. Above a range without an upper end nothing is left. -/
def above (r other : Range) : Range :=
  match other.upper with
  | none => { r with lowerIncluded := false, upper := some r.lower, upperIncluded := false }
  | some upper =>
    let moves := match compare upper r.lower with
      | .gt => true
      | .eq => r.lowerIncluded && other.upperIncluded
      | .lt => false
    if moves then { r with lower := upper, lowerIncluded := !other.upperIncluded } else r

/-- The range with its lower end moved just past an identifier. -/
def past (r : Range) (o : Oid) : Range := { r with lower := o, lowerIncluded := false }

/-- The range as an interval, with a bracket at an end that belongs to it. -/
def text (r : Range) : String :=
  (if r.lowerIncluded then "[" else "(") ++ r.lower.text ++ ", " ++ (r.upper.map Oid.text).getD "+inf" ++
    (if r.upperIncluded then "]" else ")")

end Range

end Responder
