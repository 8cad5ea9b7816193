import Responder.Text.Decimal
import Responder.Text.Hexadecimal
import Responder.Written.Document

/-! Tokens of JSON: the marks that give a text its structure, and the leaves between them. A numeral
    is an integer only if it has neither a fraction nor an exponent and fits into 64 bits; every other
    numeral is a decimal. -/

namespace Responder.Json

/-- A piece of a JSON text. -/
inductive Token where
  | openList
  | closeList
  | openRecord
  | closeRecord
  | comma
  | colon
  | text (s : String)
  | leaf (d : Document)
deriving Inhabited

namespace Token

/-- Whether the character may stand between tokens without a meaning. -/
def isBlank (c : Char) : Bool := c = ' ' || c = '\t' || c = '\n' || c = '\r'

/-- The token that a single character is. -/
def ofMark? (c : Char) : Option Token :=
  if c = '[' then some openList
  else if c = ']' then some closeList
  else if c = '\x7b' then some openRecord
  else if c = '\x7d' then some closeRecord
  else if c = ',' then some comma
  else if c = ':' then some colon
  else none

/-! ### Numerals -/

/-- Whether the character may stand in a numeral. -/
def isNumeral (c : Char) : Bool := Decimal.isDigit c || c = '-' || c = '+' || c = '.' || c = 'e' || c = 'E'

def leastInteger : Int := -9223372036854775808

/-- The greatest integer of 64 bits, taken without a sign. -/
def greatestInteger : Int := 18446744073709551615

/-- The number that a numeral without fraction and exponent is. -/
def ofWhole (negative : Bool) (n : Nat) : Document :=
  let value : Int := if negative then -n else n
  if leastInteger ≤ value ∧ value ≤ greatestInteger ∧ ¬(negative ∧ n = 0) then .integer value
  else .decimal negative n 0

/-- Reads the exponent at the end of a numeral; where nothing is left there is none. -/
def exponent? : List Char → Option (Option Int)
  | [] => some none
  | mark :: rest =>
    let (negative, digits) := match rest with
      | '-' :: digits => (true, digits)
      | '+' :: digits => (false, digits)
      | digits => (false, digits)
    if (mark = 'e' ∨ mark = 'E') ∧ digits ≠ [] ∧ digits.all Decimal.isDigit
    then some (some (if negative then -Decimal.value digits else Decimal.value digits)) else none

/-- Reads the fraction of a numeral, if it has one, and says what is left. -/
def fraction? : List Char → Option (List Char × List Char)
  | '.' :: rest =>
    let digits := rest.takeWhile Decimal.isDigit
    if digits = [] then none else some (digits, rest.dropWhile Decimal.isDigit)
  | rest => some ([], rest)

/-- The number that a numeral is: an integer without leading zeros, perhaps a fraction, perhaps an exponent. -/
def number? (cs : List Char) : Option Document := do
  let (negative, cs) := match cs with
    | '-' :: rest => (true, rest)
    | cs => (false, cs)
  let whole := cs.takeWhile Decimal.isDigit
  if whole = [] ∨ whole.head? = some '0' ∧ whole ≠ ['0'] then none
  else
    let (fraction, rest) ← fraction? (cs.dropWhile Decimal.isDigit)
    let exponent ← exponent? rest
    if fraction = [] ∧ exponent = none then return ofWhole negative (Decimal.value whole)
    else return .decimal negative (Decimal.value (whole ++ fraction)) (exponent.getD 0 - fraction.length)

/-! ### Words and texts -/

/-- What a word stands for. -/
def ofWord? (word : List Char) : Option Document :=
  if word = ['n', 'u', 'l', 'l'] then some .null
  else if word = ['t', 'r', 'u', 'e'] then some (.bool true)
  else if word = ['f', 'a', 'l', 's', 'e'] then some (.bool false)
  else none

/-- The number that four hexadecimal digits stand for. -/
def unit? (a b c d : Char) : Option Nat := do
  let a ← Hexadecimal.worth? a
  let b ← Hexadecimal.worth? b
  let c ← Hexadecimal.worth? c
  let d ← Hexadecimal.worth? d
  return 4096 * a + 256 * b + 16 * c + d

/-- The character that a letter behind a backslash stands for. -/
def escaped? (c : Char) : Option Char :=
  if c = '"' ∨ c = '\\' ∨ c = '/' then some c
  else if c = 'b' then some '\x08'
  else if c = 'f' then some '\x0c'
  else if c = 'n' then some '\n'
  else if c = 'r' then some '\r'
  else if c = 't' then some '\t'
  else none

/-- Reads a text up to the quote at its end, the characters before it given last one first, and says what is
left. A character beyond 16 bits is escaped as two units. -/
def text? (before : List Char) : List Char → Option (String × List Char)
  | [] => none
  | '"' :: rest => some (String.ofList before.reverse, rest)
  | '\\' :: 'u' :: a :: b :: c :: d :: '\\' :: 'u' :: e :: f :: g :: h :: rest =>
    match unit? a b c d, unit? e f g h with
    | some high, some low =>
      if 0xD800 ≤ high ∧ high < 0xDC00 then
        if 0xDC00 ≤ low ∧ low < 0xE000
        then text? (Char.ofNat (0x10000 + 1024 * (high - 0xD800) + (low - 0xDC00)) :: before) rest else none
      else if 0xDC00 ≤ high ∧ high < 0xE000 then none
      else text? (Char.ofNat high :: before) ('\\' :: 'u' :: e :: f :: g :: h :: rest)
    | _, _ => none
  | '\\' :: 'u' :: a :: b :: c :: d :: rest =>
    match unit? a b c d with
    | some unit => if 0xD800 ≤ unit ∧ unit < 0xE000 then none else text? (Char.ofNat unit :: before) rest
    | none => none
  | '\\' :: c :: rest =>
    match escaped? c with
    | some c => text? (c :: before) rest
    | none => none
  | c :: rest => if c = '\\' ∨ c < ' ' then none else text? (c :: before) rest

theorem length_le_of_text? {before cs rest : List Char} {s : String} (h : text? before cs = some (s, rest)) :
    rest.length ≤ cs.length := by
  fun_induction text? before cs <;> simp_all <;> omega

/-! ### Scanning -/

/-- Reads the leaf or text that begins with a character, and says what is left. -/
def leaf? (c : Char) (rest : List Char) : Option (Token × List Char) :=
  if c = '"' then (text? [] rest).map fun (s, rest) => (.text s, rest)
  else if isNumeral c then
    (number? (c :: rest.takeWhile isNumeral)).map fun d => (.leaf d, rest.dropWhile isNumeral)
  else
    (ofWord? (c :: rest.takeWhile Char.isLower)).map fun d => (.leaf d, rest.dropWhile Char.isLower)

theorem length_le_of_leaf? {c : Char} {cs rest : List Char} {t : Token} (h : leaf? c cs = some (t, rest)) :
    rest.length ≤ cs.length := by
  unfold leaf? at h
  split at h
  · obtain ⟨⟨s, r⟩, hs, he⟩ := Option.map_eq_some_iff.1 h
    obtain ⟨-, rfl⟩ := Prod.mk.inj he
    exact length_le_of_text? hs
  · split at h
    all_goals
      obtain ⟨d, -, he⟩ := Option.map_eq_some_iff.1 h
      obtain ⟨-, rfl⟩ := Prod.mk.inj he
      exact (List.dropWhile_sublist _).length_le

/-- The tokens of a text behind those that were found before, which are given last one first. -/
def scan? (before : List Token) : List Char → Option (List Token)
  | [] => some before.reverse
  | c :: rest =>
    if isBlank c then scan? before rest
    else match ofMark? c with
      | some mark => scan? (mark :: before) rest
      | none =>
        match h : leaf? c rest with
        | some (token, left) =>
          have : left.length ≤ rest.length := length_le_of_leaf? h
          scan? (token :: before) left
        | none => none
termination_by cs => cs.length
decreasing_by all_goals (simp only [List.length_cons]; omega)

end Token

end Responder.Json
