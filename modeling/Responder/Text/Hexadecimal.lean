import Responder.Text.Octets

/-! Hexadecimal digits: small letters are written, either case is read. What is written reads back. -/

namespace Responder.Hexadecimal

/-- The digit that stands for `n`, for `n` below sixteen. -/
def digit (n : Nat) : Char := if n < 10 then Char.ofNat (48 + n) else Char.ofNat (87 + n)

/-- The worth of a digit. -/
def worth? (c : Char) : Option Nat :=
  if '0' ≤ c ∧ c ≤ '9' then some (c.toNat - 48)
  else if 'a' ≤ c ∧ c ≤ 'f' then some (c.toNat - 87)
  else if 'A' ≤ c ∧ c ≤ 'F' then some (c.toNat - 55)
  else none

/-- Octets as digits, two for each. -/
def text (octets : Octets) : String :=
  String.ofList (octets.flatMap fun b => [digit (b.toNat / 16), digit (b.toNat % 16)])

/-- The octets that digits stand for. -/
def read? : List Char → Option Octets
  | [] => some []
  | [_] => none
  | high :: low :: rest =>
    match worth? high, worth? low, read? rest with
    | some high, some low, some octets => some (UInt8.ofNat (16 * high + low) :: octets)
    | _, _, _ => none

theorem worth?_digit {n : Nat} (h : n < 16) : worth? (digit n) = some n := by
  revert n
  decide

/-- What is written reads back. -/
@[simp] theorem read?_text (octets : Octets) : read? (text octets).toList = some octets := by
  simp only [text, String.toList_ofList]
  induction octets with
  | nil => rfl
  | cons b rest ih =>
    have hb : b.toNat < 256 := b.toNat_lt
    simp only [List.flatMap_cons, List.cons_append, List.nil_append, read?, ih,
      worth?_digit (show b.toNat / 16 < 16 by omega), worth?_digit (show b.toNat % 16 < 16 by omega)]
    have : 16 * (b.toNat / 16) + b.toNat % 16 = b.toNat := by omega
    simp [this]

end Responder.Hexadecimal
