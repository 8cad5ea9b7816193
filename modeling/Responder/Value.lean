import Responder.Ber.Size
import Responder.Oid.Text
import Responder.Text.Octets

/-! Values of variables: the data types of managed objects, and the three markers that a response
    can carry where there is no value. -/

namespace Responder

/-- The value bound to a variable. -/
inductive Value where
  | integer (n : Int32)
  | octetString (octets : Octets)
  | null
  | oid (o : Oid)
  | ipAddress (a b c d : UInt8)
  | counter32 (n : UInt32)
  | gauge32 (n : UInt32)
  | timeTicks (n : UInt32)
  | opaqueData (octets : Octets)
  | counter64 (n : UInt64)
  | noSuchObject
  | noSuchInstance
  | endOfMibView
deriving DecidableEq, Inhabited

namespace Value

/-- Whether the value is one of the three markers. -/
def isException : Value → Bool
  | noSuchObject | noSuchInstance | endOfMibView => true
  | _ => false

/-- Whether the value marks the end of the view. -/
def isEndOfView : Value → Bool
  | endOfMibView => true
  | _ => false

/-- Whether the value is a counter of 64 bits, which the first version of the protocol cannot carry. -/
def isCounter64 : Value → Bool
  | counter64 _ => true
  | _ => false

/-- The tag of the value's encoding. Each data type and each marker has a tag of its own. -/
def tag : Value → UInt8
  | integer _ => 0x02
  | octetString _ => 0x04
  | null => 0x05
  | oid _ => 0x06
  | ipAddress .. => 0x40
  | counter32 _ => 0x41
  | gauge32 _ => 0x42
  | timeTicks _ => 0x43
  | opaqueData _ => 0x44
  | counter64 _ => 0x46
  | noSuchObject => 0x80
  | noSuchInstance => 0x81
  | endOfMibView => 0x82

/-- Whether two values are of one data type. -/
def sameType (a b : Value) : Bool := a.tag == b.tag

def integer? : Value → Option Int32
  | integer n => some n
  | _ => none

/-- The octets of an octet string or of opaque data. -/
def octets? : Value → Option Octets
  | octetString octets | opaqueData octets => some octets
  | _ => none

def contentSize : Value → Nat
  | integer n => Ber.integerSize n
  | octetString octets | opaqueData octets => octets.length
  | oid o => Ber.oidSize o
  | ipAddress .. => 4
  | counter32 n | gauge32 n | timeTicks n => Ber.unsignedSize n.toNat
  | counter64 n => Ber.unsignedSize n.toNat
  | null | noSuchObject | noSuchInstance | endOfMibView => 0

def size (v : Value) : Nat := Ber.elementSize v.contentSize

/-- The value for the eye. -/
def text : Value → String
  | integer n => Decimal.textInt n.toInt
  | octetString octets => octets.display
  | null => "NULL"
  | oid o => o.text
  | ipAddress a b c d => ".".intercalate ([a, b, c, d].map fun n => Decimal.text n.toNat)
  | counter32 n | gauge32 n | timeTicks n => Decimal.text n.toNat
  | opaqueData octets => "Opaque(" ++ Decimal.text octets.length ++ " bytes)"
  | counter64 n => Decimal.text n.toNat
  | noSuchObject => "noSuchObject"
  | noSuchInstance => "noSuchInstance"
  | endOfMibView => "endOfMibView"

end Value

end Responder
