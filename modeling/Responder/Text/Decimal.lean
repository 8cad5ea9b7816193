/-! Natural numbers in decimal digits: how they are written, and what a run of digits is worth. The
    digits of a number are worth that number. -/

namespace Responder.Decimal

/-- The digit that stands for `n`, for `n` below ten. -/
def digit (n : Nat) : Char := Char.ofNat ('0'.toNat + n)

/-- The decimal digits of `n`, without leading zeros; zero is one digit. -/
def digits (n : Nat) : List Char :=
  if n < 10 then [digit n] else digits (n / 10) ++ [digit (n % 10)]

/-- Whether the character is one of the ten digits. -/
def isDigit (c : Char) : Bool := '0' ≤ c && c ≤ '9'

/-- The worth of a run of digits, leading zeros allowed. -/
def value (cs : List Char) : Nat := cs.foldl (fun n c => 10 * n + (c.toNat - '0'.toNat)) 0

def text (n : Nat) : String := String.ofList (digits n)

/-- The text of an integer: a minus sign stands before a negative one. -/
def textInt (n : Int) : String := if n < 0 then "-" ++ text n.natAbs else text n.natAbs

theorem digits_ne_nil (n : Nat) : digits n ≠ [] := by
  unfold digits
  split <;> simp

private theorem worth_digit {n : Nat} (h : n < 10) : (digit n).toNat - '0'.toNat = n := by
  revert n
  decide

theorem isDigit_digit {n : Nat} (h : n < 10) : isDigit (digit n) := by
  revert n
  decide

/-- The digits of a number are worth that number. -/
@[simp] theorem value_digits (n : Nat) : value (digits n) = n := by
  fun_induction digits n with
  | case1 n h => simp only [value, List.foldl_cons, List.foldl_nil, worth_digit h, Nat.mul_zero, Nat.zero_add]
  | case2 n h ih =>
    simp only [value] at ih ⊢
    rw [List.foldl_append, ih]
    simp only [List.foldl_cons, List.foldl_nil, worth_digit (Nat.mod_lt n (by decide : 0 < 10))]
    omega

theorem isDigit_of_mem_digits {n : Nat} {c : Char} (h : c ∈ digits n) : isDigit c := by
  fun_induction digits n with
  | case1 n hn => exact (List.mem_singleton.1 h) ▸ isDigit_digit hn
  | case2 n hn ih =>
    rcases List.mem_append.1 h with h | h
    · exact ih h
    · exact (List.mem_singleton.1 h) ▸ isDigit_digit (Nat.mod_lt n (by decide))

end Responder.Decimal
