/-! The security parameters of a message: protocol version, security model and security level. -/

namespace Responder

/-- The models that process messages. -/
inductive SecurityModel where
  | any
  | v1
  | v2c
  | usm
deriving DecidableEq, Inhabited

namespace SecurityModel

def number : SecurityModel → Nat
  | any => 0
  | v1 => 1
  | v2c => 2
  | usm => 3

end SecurityModel

/-- How well a message is protected, from not at all upwards. -/
inductive SecurityLevel where
  | noAuthNoPriv
  | authNoPriv
  | authPriv
deriving DecidableEq, Inhabited

namespace SecurityLevel

/-- The place of a level in the order of protection. -/
def rank : SecurityLevel → Nat
  | noAuthNoPriv => 0
  | authNoPriv => 1
  | authPriv => 2

instance : Ord SecurityLevel := ⟨fun a b => compare a.rank b.rank⟩

def name : SecurityLevel → String
  | noAuthNoPriv => "noAuthNoPriv"
  | authNoPriv => "authNoPriv"
  | authPriv => "authPriv"

end SecurityLevel

/-- The versions of the protocol. -/
inductive Version where
  | v1
  | v2c
  | v3
deriving DecidableEq, Inhabited

namespace Version

/-- The number that a message carries for the version. -/
def number : Version → Int32
  | v1 => 0
  | v2c => 1
  | v3 => 3

def ofNumber? (n : Int32) : Option Version := [v1, v2c, v3].find? fun version => version.number == n

def name : Version → String
  | v1 => "SNMPv1"
  | v2c => "SNMPv2c"
  | v3 => "SNMPv3"

/-- Whether messages of the version carry a community instead of a context. -/
def isCommunityBased : Version → Bool
  | v1 | v2c => true
  | v3 => false

/-- The model that processes messages of the version unless another one does. -/
def model : Version → SecurityModel
  | v1 => .v1
  | v2c => .v2c
  | v3 => .usm

end Version

end Responder
