import Mathlib.Data.Nat.Digits.Lemmas
import Mathlib.Tactic.Ring
import Responder.Ber.Size
import Responder.Text.Octets

/-! The octets of encoded data elements, and how many they are. Integers take their shortest two's complement form,
    subidentifiers take groups of seven bits, and lengths their shortest definite form. -/

namespace Responder

/-- The identifier is empty, or lies below one of the three arcs at the root of the tree. -/
def Oid.Rooted (o : Oid) : Prop := ∀ first ∈ o.arcs.head?, first.toNat ≤ 2

namespace Ber

/-! ### Integers -/

/-- The octets of an integer. -/
def integer (n : Int) : Octets :=
  if -0x80 ≤ n ∧ n < 0x80 then [UInt8.ofInt n] else integer (n / 256) ++ [UInt8.ofInt n]
termination_by n.natAbs
decreasing_by omega

theorem integer_ne_nil (n : Int) : integer n ≠ [] := by
  rw [integer]
  split <;> simp

theorem length_integer_le_iff (n : Int) (k : Nat) :
    (integer n).length ≤ k + 1 ↔ -2 ^ (8 * k + 7) ≤ n ∧ n < 2 ^ (8 * k + 7) := by
  induction k generalizing n with
  | zero =>
    have hpos := List.length_pos_iff.mpr (integer_ne_nil (n / 256))
    rw [integer]
    split
    · next h => simpa using h
    · next h =>
      rw [List.length_append, List.length_singleton]
      omega
  | succ k ih =>
    have hpow : (2 : Int) ^ (8 * (k + 1) + 7) = 256 * 2 ^ (8 * k + 7) := by ring
    have hone : (1 : Int) ≤ 2 ^ (8 * k + 7) := one_le_pow₀ (by decide)
    rw [integer, hpow]
    split
    · rw [List.length_singleton]
      omega
    · rw [List.length_append, List.length_singleton, Nat.add_le_add_iff_right, ih]
      omega

/-- An integer of 32 bits takes as many octets as its size says. -/
theorem length_integer_toInt (n : Int32) : (integer n.toInt).length = integerSize n := by
  have hlow := n.le_toInt
  have hhigh := n.toInt_lt
  have hpos := List.length_pos_iff.mpr (integer_ne_nil n.toInt)
  have hone := length_integer_le_iff n.toInt 0
  have htwo := length_integer_le_iff n.toInt 1
  have hthree := length_integer_le_iff n.toInt 2
  have hfour := (length_integer_le_iff n.toInt 3).mpr ⟨hlow, hhigh⟩
  dsimp only [integerSize]
  split
  · omega
  · split
    · omega
    · split <;> omega

/-- Two positive numbers are the same if they are at most the same numbers. -/
theorem eq_of_le_succ_iff {m n : Nat} (hm : 0 < m) (hn : 0 < n) (h : ∀ k, m ≤ k + 1 ↔ n ≤ k + 1) : m = n := by
  have hle := (h (n - 1)).mpr (by omega)
  have hge := (h (m - 1)).mp (by omega)
  omega

theorem log2_lt_iff (n : Nat) {k : Nat} (hk : 0 < k) : n.log2 < k ↔ n < 2 ^ k := by
  rcases Nat.eq_zero_or_pos n with rfl | hn
  · simp [hk]
  · exact Nat.log2_lt hn.ne'

theorem unsignedSize_le_iff (n k : Nat) : unsignedSize n ≤ k + 1 ↔ n < 2 ^ (8 * k + 7) := by
  rw [← log2_lt_iff n (Nat.succ_pos _), unsignedSize]
  omega

/-- An unsigned integer takes as many octets as its size says. -/
theorem length_integer_natCast (n : Nat) : (integer n).length = unsignedSize n := by
  have hsize : 0 < unsignedSize n := by
    unfold unsignedSize
    omega
  refine eq_of_le_succ_iff (List.length_pos_iff.mpr (integer_ne_nil n)) hsize fun k => ?_
  have hlow : (-2 ^ (8 * k + 7) : Int) ≤ n := (neg_nonpos.mpr (by positivity)).trans (Int.natCast_nonneg n)
  rw [length_integer_le_iff, unsignedSize_le_iff, and_iff_right hlow]
  exact_mod_cast Iff.rfl

/-! ### Object identifiers -/

/-- The octets of a subidentifier: seven bits in each, and the high bit set in all but the last one. -/
def subidentifier (n : Nat) : Octets :=
  (Nat.digits 128 (n / 128)).reverse.map (fun group => UInt8.ofNat (0x80 + group)) ++ [UInt8.ofNat (n % 128)]

theorem length_subidentifier_le_iff (n k : Nat) : (subidentifier n).length ≤ k + 1 ↔ n < 2 ^ (7 * k + 7) := by
  have hpow : 2 ^ (7 * k + 7) = 128 ^ k * 128 := by norm_num [pow_add, pow_mul]
  simp only [subidentifier, List.length_append, List.length_map, List.length_reverse, List.length_singleton,
    Nat.add_le_add_iff_right, Nat.digits_length_le_iff (by decide : 1 < 128), hpow]
  exact Nat.div_lt_iff_lt_mul (by decide)

theorem subidentifierSize_le_iff (n k : Nat) : subidentifierSize n ≤ k + 1 ↔ n < 2 ^ (7 * k + 7) := by
  rw [← log2_lt_iff n (Nat.succ_pos _), subidentifierSize]
  omega

/-- A subidentifier takes as many octets as its size says. -/
theorem length_subidentifier (n : Nat) : (subidentifier n).length = subidentifierSize n := by
  refine eq_of_le_succ_iff (by simp [subidentifier]) (Nat.succ_pos _) fun k => ?_
  rw [length_subidentifier_le_iff, subidentifierSize_le_iff]

/-- The subidentifiers of a path: the first two arcs share one. -/
def subidentifiers : List UInt32 → List Nat
  | [] => []
  | [first] => [40 * first.toNat]
  | first :: second :: rest => (40 * first.toNat + second.toNat) :: rest.map UInt32.toNat

/-- The octets of an object identifier. -/
def identifier (o : Oid) : Octets := (subidentifiers o.arcs).flatMap subidentifier

/-- Below the three arcs at the root of the tree, the sum of the first two arcs is at most a little larger than an
arc, which takes no further octet. -/
theorem subidentifierSize_leadingArcs {first : UInt32} (h : first.toNat ≤ 2) (second : UInt32) :
    subidentifierSize (leadingArcs first second) = subidentifierSize (40 * first.toNat + second.toNat) := by
  have hsecond := second.toNat_lt
  have hmax : Oid.maxArc.toNat = 4294967295 := rfl
  rcases Nat.lt_or_ge (40 * first.toNat + second.toNat) 4294967296 with hfits | hlarge
  · rw [leadingArcs, hmax]
    congr 1
    omega
  · refine eq_of_le_succ_iff (Nat.succ_pos _) (Nat.succ_pos _) fun k => ?_
    have hleading : leadingArcs first second = 4294967295 := by
      rw [leadingArcs, hmax]
      omega
    rw [subidentifierSize_le_iff, subidentifierSize_le_iff, hleading]
    rcases Nat.lt_or_ge k 4 with hfew | hmany
    · have hpow : 2 ^ (7 * k + 7) ≤ 2 ^ 28 := Nat.pow_le_pow_right (by decide) (by omega)
      omega
    · have hpow : 2 ^ 35 ≤ 2 ^ (7 * k + 7) := Nat.pow_le_pow_right (by decide) (by omega)
      omega

theorem length_subidentifiers (arcs : List UInt32) : ((arcs.map UInt32.toNat).flatMap subidentifier).length =
    arcs.foldr (fun arc n => subidentifierSize arc.toNat + n) 0 := by
  induction arcs with
  | nil => rfl
  | cons arc arcs ih =>
    rw [List.map_cons, List.flatMap_cons, List.length_append, length_subidentifier, ih, List.foldr_cons]

/-- An object identifier takes as many octets as its size says. -/
theorem length_identifier {o : Oid} (h : o.Rooted) : (identifier o).length = oidSize o := by
  obtain ⟨_ | ⟨first, _ | ⟨second, rest⟩⟩⟩ := o
  · rfl
  · rw [identifier, subidentifiers, List.flatMap_singleton, length_subidentifier]
    exact (subidentifierSize_leadingArcs (h first rfl) 0).symm
  · rw [identifier, subidentifiers, List.flatMap_cons, List.length_append, length_subidentifier, length_subidentifiers,
      ← subidentifierSize_leadingArcs (h first rfl)]
    rfl

/-! ### Elements -/

/-- The octets that tell the length of a content: the length itself if it is short, else how many octets it takes and
then these. -/
def lengthField (content : Nat) : Octets :=
  if content < 0x80 then [UInt8.ofNat content]
  else
    let digits := (Nat.digits 256 content).reverse
    UInt8.ofNat (0x80 + digits.length) :: digits.map UInt8.ofNat

/-- The octets of an element: its tag, its length and its content. -/
def element (tag : UInt8) (content : Octets) : Octets := tag :: (lengthField content.length ++ content)

theorem length_lengthField {content : Nat} (h : content < 2 ^ 32) :
    (lengthField content).length = lengthSize content := by
  unfold lengthField lengthSize
  split
  · rw [if_pos (by omega)]
    rfl
  · have hdigits (k : Nat) := Nat.digits_length_le_iff (by decide : 1 < 256) (k := k) content
    have hzero := hdigits 0
    have hone := hdigits 1
    have htwo := hdigits 2
    have hthree := hdigits 3
    have hfour := hdigits 4
    simp only [List.length_cons, List.length_map, List.length_reverse]
    rw [if_neg (by omega)]
    split
    · omega
    · split
      · omega
      · split <;> omega

theorem length_le_element (tag : UInt8) (content : Octets) : content.length ≤ (element tag content).length := by
  rw [element, List.length_cons, List.length_append]
  omega

/-- An element takes as many octets as its size says. -/
theorem length_element (tag : UInt8) {content : Octets} (h : content.length < 2 ^ 32) :
    (element tag content).length = elementSize content.length := by
  rw [element, List.length_cons, List.length_append, length_lengthField h, elementSize]
  omega

end Ber
end Responder
