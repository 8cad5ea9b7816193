import Responder.Text.Decimal

/-! Error statuses of responses: their codes, their names, and the few of them that the first
    version of the protocol knows. -/

namespace Responder

/-- What a response reports about a request. -/
inductive Status where
  | noError
  | tooBig
  | noSuchName
  | badValue
  | readOnly
  | genErr
  | noAccess
  | wrongType
  | wrongLength
  | wrongEncoding
  | wrongValue
  | noCreation
  | inconsistentValue
  | resourceUnavailable
  | commitFailed
  | undoFailed
  | authorizationError
  | notWritable
  | inconsistentName
  /-- A code without a meaning of its own. -/
  | unknown (code : Int32)
deriving DecidableEq, Inhabited

namespace Status

/-- The statuses that have a meaning, in the order of their codes. -/
def known : List Status :=
  [noError, tooBig, noSuchName, badValue, readOnly, genErr, noAccess, wrongType, wrongLength, wrongEncoding,
    wrongValue, noCreation, inconsistentValue, resourceUnavailable, commitFailed, undoFailed, authorizationError,
    notWritable, inconsistentName]

def ofCode (code : Int32) : Status :=
  if 0 ≤ code.toInt then (known[code.toInt.toNat]?).getD (unknown code) else unknown code

def code : Status → Int32
  | noError => 0
  | tooBig => 1
  | noSuchName => 2
  | badValue => 3
  | readOnly => 4
  | genErr => 5
  | noAccess => 6
  | wrongType => 7
  | wrongLength => 8
  | wrongEncoding => 9
  | wrongValue => 10
  | noCreation => 11
  | inconsistentValue => 12
  | resourceUnavailable => 13
  | commitFailed => 14
  | undoFailed => 15
  | authorizationError => 16
  | notWritable => 17
  | inconsistentName => 18
  | unknown code => code

def isError (s : Status) : Bool := s != noError

/-- The nearest status that the first version of the protocol knows. -/
def forV1 : Status → Status
  | notWritable | noAccess | noCreation | inconsistentName => noSuchName
  | authorizationError | resourceUnavailable | commitFailed | undoFailed => genErr
  | wrongValue | wrongLength | inconsistentValue | wrongType | wrongEncoding => badValue
  | status => status

def name : Status → String
  | noError => "noError"
  | tooBig => "tooBig"
  | noSuchName => "noSuchName"
  | badValue => "badValue"
  | readOnly => "readOnly"
  | genErr => "genErr"
  | noAccess => "noAccess"
  | wrongType => "wrongType"
  | wrongLength => "wrongLength"
  | wrongEncoding => "wrongEncoding"
  | wrongValue => "wrongValue"
  | noCreation => "noCreation"
  | inconsistentValue => "inconsistentValue"
  | resourceUnavailable => "resourceUnavailable"
  | commitFailed => "commitFailed"
  | undoFailed => "undoFailed"
  | authorizationError => "authorizationError"
  | notWritable => "notWritable"
  | inconsistentName => "inconsistentName"
  | unknown code => "unknown(" ++ Decimal.textInt code.toInt ++ ")"

end Status

end Responder
