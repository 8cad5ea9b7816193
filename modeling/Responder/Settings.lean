import Responder.Text.Octets
import Responder.Time

/-! The settings of an agent. -/

namespace Responder

/-- The settings of an agent. -/
structure Settings where
  /-- How long a request may be in progress. -/
  requestTimeout : Duration := .seconds 300
  /-- How long to wait for the lock of an object; zero is for ever. -/
  lockTimeout : Duration := .seconds 5
  /-- How many requests may be served at once in the background; zero serves each where it arrives. -/
  maxConcurrent : Nat := 100
  /-- Whether faults of instrumentation are passed on to the caller instead of being answered. -/
  forwardFaults : Bool := false
  /-- The engines that are served here; none at all means every engine. -/
  ownEngines : List Octets := []
deriving DecidableEq, Inhabited

namespace Settings

/-- Whether an engine is served here. The empty one always is. -/
def isOwnEngine (s : Settings) (engine : Octets) : Bool :=
  engine.isEmpty || s.ownEngines.isEmpty || s.ownEngines.contains engine

end Settings

end Responder
