import Responder.Oid.Basic

/-! The protocol counters of an agent. They are 32 bits wide and wrap. -/

namespace Responder

/-- What an agent counts. -/
inductive Counter where
  /-- Requests without an answer, as even an empty one would be too large. -/
  | silentDrops
  /-- Requests for another engine that could not be passed on. -/
  | proxyDrops
  /-- Requests of a kind that nobody serves. -/
  | unknownPduHandlers
  /-- Requests with a community that is unknown or not open to their sender. -/
  | inBadCommunityNames
deriving DecidableEq, Inhabited

namespace Counter

/-- Every counter, in the order in which they are reported. -/
def all : List Counter := [silentDrops, proxyDrops, unknownPduHandlers, inBadCommunityNames]

def oid : Counter → Oid
  | silentDrops => ⟨[1, 3, 6, 1, 2, 1, 11, 31, 0]⟩
  | proxyDrops => ⟨[1, 3, 6, 1, 2, 1, 11, 32, 0]⟩
  | unknownPduHandlers => ⟨[1, 3, 6, 1, 6, 3, 11, 2, 1, 3, 0]⟩
  | inBadCommunityNames => ⟨[1, 3, 6, 1, 2, 1, 11, 4, 0]⟩

def name : Counter → String
  | silentDrops => "snmpSilentDrops"
  | proxyDrops => "snmpProxyDrops"
  | unknownPduHandlers => "snmpUnknownPDUHandlers"
  | inBadCommunityNames => "snmpInBadCommunityNames"

def ofName? (s : String) : Option Counter := all.find? fun counter => counter.name == s

@[simp] theorem ofName?_name (counter : Counter) : ofName? counter.name = some counter := by
  cases counter <;> decide

end Counter

/-- The values of the counters. -/
structure Counters where
  silentDrops : UInt32 := 0
  proxyDrops : UInt32 := 0
  unknownPduHandlers : UInt32 := 0
  inBadCommunityNames : UInt32 := 0
deriving DecidableEq, Inhabited

namespace Counters

def get (cs : Counters) : Counter → UInt32
  | .silentDrops => cs.silentDrops
  | .proxyDrops => cs.proxyDrops
  | .unknownPduHandlers => cs.unknownPduHandlers
  | .inBadCommunityNames => cs.inBadCommunityNames

def raise (cs : Counters) : Counter → Counters
  | .silentDrops => { cs with silentDrops := cs.silentDrops + 1 }
  | .proxyDrops => { cs with proxyDrops := cs.proxyDrops + 1 }
  | .unknownPduHandlers => { cs with unknownPduHandlers := cs.unknownPduHandlers + 1 }
  | .inBadCommunityNames => { cs with inBadCommunityNames := cs.inBadCommunityNames + 1 }

/-- The values in the order in which they are reported. -/
def toList (cs : Counters) : List UInt32 := Counter.all.map cs.get

/-- Raising a counter adds one to it and leaves the others. -/
theorem get_raise (cs : Counters) (raised asked : Counter) :
    (cs.raise raised).get asked = if asked = raised then cs.get asked + 1 else cs.get asked := by
  cases raised <;> cases asked <;> rfl

end Counters

end Responder
