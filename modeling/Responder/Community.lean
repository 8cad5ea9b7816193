import Responder.Message.Address
import Responder.Text.Octets

/-! Communities: what a community stands for, and which hosts may use it. -/

namespace Responder

/-- What a community stands for. -/
structure Mapping where
  securityName : Octets
  engine : Octets
  context : Octets
  /-- The largest response that the users of the community accept, in octets. -/
  maxSize : Option Nat
  /-- The tag of the hosts that may use the community; without one, every host may. -/
  tag : Option Octets
deriving DecidableEq, Inhabited

/-- The communities that are known, and the hosts under each tag. -/
structure Communities where
  entries : List (Octets × Mapping) := []
  /-- Hosts by tag. A tag that is listed more than once has the hosts of all its entries. -/
  hosts : List (Octets × List HostAddress) := []
deriving Inhabited

namespace Communities

/-- What a community stands for, the preferred mapping first. -/
def mappings (t : Communities) (community : Octets) : List Mapping :=
  (t.entries.filter fun entry => entry.1 == community).map (·.2)

/-- Whether a host may use a mapping. -/
def admits (t : Communities) (host : HostAddress) (m : Mapping) : Bool :=
  match m.tag with
  | none => true
  | some tag => t.hosts.any fun entry => entry.1 == tag && entry.2.contains host

def size (t : Communities) : Nat := t.entries.length

def isEmpty (t : Communities) : Bool := t.entries.isEmpty

end Communities

end Responder
