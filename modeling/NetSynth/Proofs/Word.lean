import Mathlib.Algebra.Group.Int.Defs
import Mathlib.Algebra.Group.Nat.Defs
import NetSynth.Logic.Bits
import NetSynth.Operator

/-! Words of bits that are known to be low or high, least significant first, and the numbers that
they write. -/
namespace NetSynth

abbrev Word := List Bool

namespace Word

def value : Word → Nat
  | [] => 0
  | bit :: rest => bit.toNat + 2 * value rest

/-- The most significant bit; an empty word has none and counts as low. -/
def top (word : Word) : Bool := word.getLastD false

/-- The number that a word stands for, in two's complement if it is signed. -/
def toInt (signed : Bool) (word : Word) : Int :=
  if (signed && top word) = true then value word - 2 ^ word.length else value word

/-- The low bits of an integer, in two's complement. -/
def ofInt : Nat → Int → Word
  | 0, _ => []
  | width + 1, number => (number % 2 == 1) :: ofInt width (number / 2)

/-- A word widened by copies of its top bit if it is signed, and by zeros if not. -/
def extend (signed : Bool) (width : Nat) (word : Word) : Word :=
  word ++ List.replicate (width - word.length) (signed && top word)

def truth (word : Word) : Bool := word.any id

/-- The word of a constant without unknown bits. -/
def ofBits (bits : Bits) : Word := bits.levels.map (· == .one)

variable {word : Word} {width : Nat} {signed : Bool}

@[simp] theorem length_ofInt (width : Nat) (number : Int) : (ofInt width number).length = width := by
  induction width generalizing number with
  | zero => rfl
  | succ width ih => simp [ofInt, ih]

@[simp] theorem length_ofBits (bits : Bits) : (ofBits bits).length = bits.width := by
  simp [ofBits, Bits.levels]

theorem length_extend (narrow : word.length ≤ width) : (extend signed width word).length = width := by
  simp [extend]
  omega

theorem extend_of_ge (wide : width ≤ word.length) : extend signed width word = word := by
  simp [extend, Nat.sub_eq_zero_of_le wide]

theorem value_append (low high : Word) :
    value (low ++ high) = value low + 2 ^ low.length * value high := by
  induction low with
  | nil => simp [value]
  | cons bit rest ih =>
    rw [List.cons_append, value, value, ih, List.length_cons, Nat.pow_succ, Nat.mul_add,
      ← Nat.mul_assoc, Nat.mul_comm (2 ^ rest.length) 2, Nat.add_assoc]

theorem eq_nil_of_map_not (same : word.map (!·) = word) : word = [] := by
  cases word with
  | nil => rfl
  | cons bit rest => cases bit <;> simp at same

theorem value_zeros (count : Nat) : value (List.replicate count false) = 0 := by
  induction count with
  | zero => rfl
  | succ count ih => simp [List.replicate_succ, value, ih]

theorem value_ones (count : Nat) : value (List.replicate count true) + 1 = 2 ^ count := by
  induction count with
  | zero => rfl
  | succ count ih =>
    rw [List.replicate_succ, value, Nat.pow_succ, ← ih, Bool.toNat_true]
    omega

theorem ofInt_value (word : Word) (inside : width ≤ word.length) :
    ofInt width (value word) = word.take width := by
  induction width generalizing word with
  | zero => rfl
  | succ width ih =>
    cases word with
    | nil => simp at inside
    | cons bit rest =>
      have half : ((value (bit :: rest) : Nat) : Int) / 2 = value rest := by
        cases bit <;> simp only [value, Bool.toNat_true, Bool.toNat_false] <;> omega
      have odd : (((value (bit :: rest) : Nat) : Int) % 2 == 1) = bit := by
        cases bit <;> simp only [value, Bool.toNat_true, Bool.toNat_false, beq_iff_eq,
          beq_eq_false_iff_ne] <;> omega
      rw [ofInt, half, odd, List.take_succ_cons, ih rest (by simpa using inside)]

/-- The low bits do not see multiples of a power beyond them. -/
theorem ofInt_add_mul (width : Nat) (number factor : Int) :
    ofInt width (number + 2 ^ width * factor) = ofInt width number := by
  induction width generalizing number with
  | zero => rfl
  | succ width ih =>
    have twice : (2 : Int) ^ (width + 1) * factor = 2 * (2 ^ width * factor) := by
      rw [Int.pow_succ, Int.mul_comm (2 ^ width) 2, Int.mul_assoc]
    have half : (number + 2 * (2 ^ width * factor)) / 2 = number / 2 + 2 ^ width * factor := by omega
    have odd : (number + 2 * (2 ^ width * factor)) % 2 = number % 2 := by omega
    rw [twice, ofInt, ofInt, half, odd, ih]

/-- An extension writes the number that its word stands for, plus the power just beyond it if that
number is negative. -/
theorem value_extend (narrow : word.length ≤ width) : (value (extend signed width word) : Int) =
    toInt signed word + 2 ^ width * if (signed && top word) = true then 1 else 0 := by
  rw [extend, value_append, toInt]
  cases signed && top word with
  | true =>
    -- The copies of the top bit write all powers between the two widths.
    have filled : 2 ^ word.length * value (List.replicate (width - word.length) true) +
        2 ^ word.length = 2 ^ width := by
      rw [← Nat.mul_succ, Nat.succ_eq_add_one, value_ones, ← Nat.pow_add,
        Nat.add_sub_cancel' narrow]
    have inIntegers : (2 : Int) ^ width = (2 ^ width : Nat) := by simp
    rw [if_pos rfl, if_pos rfl, Int.mul_one, inIntegers, ← filled]
    push_cast
    omega
  | false =>
    rw [value_zeros]
    simp

theorem top_extend (narrow : word.length ≤ width) :
    (signed && top (extend signed width word)) = (signed && top word) := by
  rcases Nat.eq_or_lt_of_le narrow with same | less
  · rw [extend_of_ge (Nat.le_of_eq same.symm)]
  · rw [extend, top, List.getLastD_eq_getLast?, List.getLast?_append, List.getLast?_replicate,
      if_neg (by omega), Option.some_or, Option.getD_some, ← Bool.and_assoc, Bool.and_self]

theorem toInt_extend (narrow : word.length ≤ width) :
    toInt signed (extend signed width word) = toInt signed word := by
  have written := @value_extend word width signed narrow
  rw [toInt, top_extend narrow, length_extend narrow]
  cases known : signed && top word with
  | true =>
    rw [known] at written
    simp only [if_true, Int.mul_one] at written ⊢
    omega
  | false =>
    rw [known] at written
    simpa using written

/-- A word brought to another width has the low bits of the number that it stands for. -/
theorem take_extend (signed : Bool) (width : Nat) (word : Word) :
    (extend signed width word).take width = ofInt width (toInt signed word) := by
  rcases Nat.le_total word.length width with narrow | wide
  · rw [← ofInt_value _ (Nat.le_of_eq (length_extend narrow).symm), value_extend narrow,
      ofInt_add_mul]
  · rw [extend_of_ge wide, ← ofInt_value word wide, toInt]
    cases signed && top word with
    | true =>
      have power : (2 : Int) ^ word.length = 2 ^ width * 2 ^ (word.length - width) := by
        rw [← Int.pow_add, Nat.add_sub_cancel' wide]
      rw [if_pos rfl, power, Int.sub_eq_add_neg, Int.neg_mul_eq_mul_neg, ofInt_add_mul]
    | false => rfl

theorem extend_eq_ofInt (narrow : word.length ≤ width) :
    extend signed width word = ofInt width (toInt signed word) := by
  rw [← take_extend, List.take_of_length_le (Nat.le_of_eq (length_extend narrow))]

/-- What is cut off does not depend on the sign. -/
theorem take_eq_ofInt (signed : Bool) (wide : width ≤ word.length) :
    word.take width = ofInt width (toInt signed word) := by
  rw [← take_extend, extend_of_ge wide]

end Word
end NetSynth
