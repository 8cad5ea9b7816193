/-! Strings of octets, and the characters they spell in UTF-8. Octets that spell nothing are kept
    apart as invalid runs: each run is the longest start of a character that is cut short. -/

namespace Responder

/-- A string of octets. -/
abbrev Octets := List UInt8

namespace Octets

/-- The octets of a text in UTF-8. -/
def ofText (s : String) : Octets := s.toUTF8.toList

/-- Whether the octet continues a character that an earlier one began. -/
def isContinuation (b : UInt8) : Bool := 0x80 ≤ b && b ≤ 0xBF

/-- What may follow the octet that begins a character of three octets. -/
def isSecondOfThree (first second : UInt8) : Bool :=
  if first = 0xE0 then 0xA0 ≤ second && second ≤ 0xBF
  else if first = 0xED then 0x80 ≤ second && second ≤ 0x9F
  else isContinuation second

/-- What may follow the octet that begins a character of four octets. -/
def isSecondOfFour (first second : UInt8) : Bool :=
  if first = 0xF0 then 0x90 ≤ second && second ≤ 0xBF
  else if first = 0xF4 then 0x80 ≤ second && second ≤ 0x8F
  else isContinuation second

/-- The character with these groups of six bits behind the bits of its first octet. -/
def assemble (lead : Nat) (groups : List UInt8) : Char :=
  Char.ofNat (groups.foldl (fun n b => n * 64 + b.toNat % 64) lead)

/-- The character that begins with `first`, and how many of the octets behind it belong to it. No
    character means that these octets are an invalid run. -/
def leading (first : UInt8) (rest : Octets) : Option Char × Nat :=
  if first < 0x80 then (some (Char.ofNat first.toNat), 0)
  else if 0xC2 ≤ first && first ≤ 0xDF then
    match rest with
    | b :: _ => if isContinuation b then (some (assemble (first.toNat % 32) [b]), 1) else (none, 0)
    | [] => (none, 0)
  else if 0xE0 ≤ first && first ≤ 0xEF then
    match rest with
    | b :: c :: _ =>
      if !isSecondOfThree first b then (none, 0)
      else if !isContinuation c then (none, 1)
      else (some (assemble (first.toNat % 16) [b, c]), 2)
    | [b] => (none, if isSecondOfThree first b then 1 else 0)
    | [] => (none, 0)
  else if 0xF0 ≤ first && first ≤ 0xF4 then
    match rest with
    | b :: c :: d :: _ =>
      if !isSecondOfFour first b then (none, 0)
      else if !isContinuation c then (none, 1)
      else if !isContinuation d then (none, 2)
      else (some (assemble (first.toNat % 8) [b, c, d]), 3)
    | [b, c] => (none, if !isSecondOfFour first b then 0 else if !isContinuation c then 1 else 2)
    | [b] => (none, if isSecondOfFour first b then 1 else 0)
    | [] => (none, 0)
  else (none, 0)

/-- The characters that the octets spell, `none` for each invalid run. -/
def characters : Octets → List (Option Char)
  | [] => []
  | first :: rest =>
    let (c, more) := leading first rest
    c :: characters (rest.drop more)
termination_by octets => octets.length
decreasing_by rw [List.length_drop, List.length_cons]; omega

/-- The text that the octets spell, if they are valid throughout. -/
def text? (octets : Octets) : Option String :=
  ((characters octets).mapM id).map String.ofList

/-- The text that the octets spell, with a replacement character for each invalid run. -/
def textLossy (octets : Octets) : String :=
  String.ofList ((characters octets).map fun c => c.getD '\uFFFD')

/-- Whether the character is a control character: the two blocks of them below U+00A0. -/
def isControl (c : Char) : Bool := c.toNat ≤ 0x1F || (0x7F ≤ c.toNat && c.toNat ≤ 0x9F)

/-- One hexadecimal digit, as a capital letter above nine. -/
def hexDigit (n : Nat) : Char := if n < 10 then Char.ofNat (48 + n) else Char.ofNat (55 + n)

/-- An octet as two hexadecimal digits. -/
def hexPair (b : UInt8) : String := String.ofList [hexDigit (b.toNat / 16), hexDigit (b.toNat % 16)]

/-- Octets for the eye: the text they spell, or hexadecimal pairs where they spell none or one with
    control characters. -/
def display (octets : Octets) : String :=
  match text? octets with
  | some s => if s.toList.all (!isControl ·) then s else hex
  | none => hex
where
  hex : String := " ".intercalate (octets.map hexPair)

end Octets

end Responder
