import Responder.Text.Decimal
import Responder.Text.Hexadecimal
import Responder.Written.Document

/-! Writing JSON: a document on one line without blanks. In a text the quote, the backslash and the
    control characters are escaped, and everything else stands for itself. -/

namespace Responder.Json

/-- A character inside a text. -/
def character (c : Char) : List Char :=
  if c = '"' ∨ c = '\\' then ['\\', c]
  else if c < ' ' then
    ['\\', 'u', '0', '0', Hexadecimal.digit (c.toNat / 16), Hexadecimal.digit (c.toNat % 16)]
  else [c]

/-- A text between quotes. -/
def quoted (s : String) : String := String.ofList ('"' :: s.toList.flatMap character ++ ['"'])

/-- A decimal, always with an exponent, so that it is not taken for an integer. -/
def decimal (negative : Bool) (digits : Nat) (exponent : Int) : String :=
  (if negative then "-" else "") ++ Decimal.text digits ++ "e" ++ Decimal.textInt exponent

mutual

def text : Document → String
  | .null => "null"
  | .bool true => "true"
  | .bool false => "false"
  | .integer n => Decimal.textInt n
  | .decimal negative digits exponent => decimal negative digits exponent
  | .text s => quoted s
  | .list items => "[" ++ ",".intercalate (texts items) ++ "]"
  | .record fields => "\x7b" ++ ",".intercalate (fieldTexts fields) ++ "\x7d"

def texts : List Document → List String
  | [] => []
  | d :: rest => text d :: texts rest

def fieldTexts : List (String × Document) → List String
  | [] => []
  | (name, d) :: rest => (quoted name ++ ":" ++ text d) :: fieldTexts rest

end

end Responder.Json
