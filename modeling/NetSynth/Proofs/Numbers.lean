import NetSynth.Proofs.Word

/-! The numbers that words and vectors write, unsigned and in two's complement, and the vectors whose
number sixty-four bits hold. -/
namespace NetSynth

namespace Word

theorem value_lt (word : Word) : word.value < 2 ^ word.length := by
  induction word with
  | nil => exact Nat.one_pos
  | cons bit rest ih =>
    rw [value, List.length_cons, Nat.pow_succ]
    cases bit <;> simp only [Bool.toNat_true, Bool.toNat_false] <;> omega

theorem value_concat (low : Word) (bit : Bool) :
    value (low ++ [bit]) = value low + 2 ^ low.length * bit.toNat := by
  rw [value_append, value, value, Nat.mul_zero, Nat.add_zero]

theorem value_testBit (number width : Nat) :
    value ((List.range width).map number.testBit) = number % 2 ^ width := by
  induction width with
  | zero => exact (Nat.mod_one number).symm
  | succ width ih =>
    rw [List.range_succ, List.map_append, List.map_singleton, value_concat, ih, List.length_map,
      List.length_range, Nat.toNat_testBit, Nat.mod_pow_succ]

/-- Two's complement is the balanced remainder of the number that the bits write. -/
theorem toInt_eq_bmod (word : Word) :
    toInt true word = Int.bmod (value word) (2 ^ word.length) := by
  rcases List.eq_nil_or_concat word with rfl | ⟨low, bit, concat⟩
  · rfl
  · obtain rfl := concat.trans List.concat_eq_append
    have small := value_lt low
    have double : 2 ^ (low ++ [bit]).length = 2 * 2 ^ low.length := by
      rw [List.length_append, List.length_singleton, Nat.pow_succ, Nat.mul_comm]
    have power : (2 : Int) ^ (low ++ [bit]).length = (2 * 2 ^ low.length : Nat) := by
      rw [← double]
      push_cast
      rfl
    rw [toInt, top, List.getLastD_concat, Bool.true_and, power, double, value_concat]
    cases bit with
    | true =>
      rw [if_pos rfl, Bool.toNat_true, Nat.mul_one, ← Int.sub_bmod_right]
      exact (Int.bmod_eq_of_le_mul_two (by omega) (by omega)).symm
    | false =>
      rw [if_neg Bool.false_ne_true, Bool.toNat_false, Nat.mul_zero, Nat.add_zero]
      exact (Int.bmod_eq_of_le_mul_two (by omega) (by omega)).symm

end Word

theorem Machine.toNat_setBit {sum : BitVec 64} {place : Nat} (low : sum.toNat < 2 ^ place)
    (inside : place < 64) : (sum ||| (1 : BitVec 64) <<< place).toNat = sum.toNat + 2 ^ place := by
  have power : 2 ^ place < 2 ^ 64 := Nat.pow_lt_pow_right (by decide) inside
  have disjoint := Nat.two_pow_add_eq_or_of_lt low 1
  have bit : ((1 : BitVec 64) <<< place).toNat = 2 ^ place := by
    rw [BitVec.toNat_shiftLeft, Nat.shiftLeft_eq]
    exact (congrArg (· % 2 ^ 64) (Nat.one_mul _)).trans (Nat.mod_eq_of_lt power)
  rw [Nat.mul_one] at disjoint
  rw [BitVec.toNat_or, bit, Nat.or_comm, ← disjoint, Nat.add_comm]

/-- Definite levels write the number of their word, and other levels write none. -/
theorem Level.value?_eq (levels : List Level) : value? levels =
    if levels.all Level.isDefinite = true then some (Word.value (levels.map (· == .one)))
    else none := by
  induction levels with
  | nil => rfl
  | cons level rest ih =>
    rw [List.all_cons, List.map_cons, Word.value]
    cases level with
    | zero =>
      rw [value?, ih, apply_ite (Option.map _), show (zero == one) = false from rfl,
        Bool.toNat_false, Nat.zero_add]
      rfl
    | one =>
      rw [value?, ih, apply_ite (Option.map _), beq_self_eq_true, Bool.toNat_true, Nat.add_comm 1]
      rfl
    | unknown => rfl
    | floating => rfl

namespace Bits

variable {bits : Bits} {signed : Bool} {value : Nat}

theorem value?_of_definite (definite : bits.isDefinite = true) :
    bits.value? = some (Word.ofBits bits).value :=
  (Level.value?_eq bits.levels).trans (if_pos definite)

theorem value?_eq_some : bits.value? = some value ↔
    bits.isDefinite = true ∧ (Word.ofBits bits).value = value := by
  rw [value?, Level.value?_eq, Option.ite_none_right_eq_some, Option.some.injEq]
  rfl

/-- The number that a constant stands for. -/
def number (bits : Bits) (signed : Bool) : Int := (Word.ofBits bits).toInt signed

/-- Sixty-four bits hold the constant, and hold its number as a signed integer. -/
def IsShort (bits : Bits) (signed : Bool) : Prop :=
  bits.width ≤ 64 ∧ FitsInt64 (bits.number signed)

instance (bits : Bits) (signed : Bool) : Decidable (bits.IsShort signed) :=
  inferInstanceAs (Decidable (_ ∧ _))

theorem top?_eq_one_iff (bits : Bits) :
    (bits.top? == some .one) = Word.top (Word.ofBits bits) := by
  rw [top?, Word.top, Word.ofBits, levels, List.map_map]
  cases bits.width with
  | zero => rfl
  | succ width => simp [List.range_succ]

/-- A definite constant has its number as an integer value where it is short, and none elsewhere. -/
theorem toInt?_of_definite (definite : bits.isDefinite = true) (signed : Bool) :
    bits.toInt? signed = if bits.IsShort signed then some (bits.number signed) else none := by
  have known := value?_of_definite definite
  have read : (if signed && bits.top? == some .one then
      ((Word.ofBits bits).value : Int) - (1 <<< bits.width : Nat) else (Word.ofBits bits).value) =
        bits.number signed := by
    rw [top?_eq_one_iff, number, Word.toInt, Word.length_ofBits, Nat.one_shiftLeft]
    push_cast
    rfl
  by_cases narrow : bits.width ≤ 64
  · have raw : bits.toNat? = some (Word.ofBits bits).value := by rw [toNat?, if_pos narrow, known]
    simp only [toInt?, raw, Option.bind_eq_bind, Option.bind_some, read, IsShort, narrow, true_and]
  · simp [toInt?, toNat?, IsShort, narrow]

theorem isShort_signed (narrow : bits.width ≤ 64) : bits.IsShort true := by
  have positive : 0 < 2 ^ bits.width := Nat.two_pow_pos _
  have power : 2 ^ bits.width ≤ 2 ^ 64 := Nat.pow_le_pow_right (by decide) narrow
  have read : bits.number true = Int.bmod (Word.ofBits bits).value (2 ^ bits.width) := by
    rw [number, Word.toInt_eq_bmod, Word.length_ofBits]
  have low := Int.le_bmod (x := (Word.ofBits bits).value) positive
  have high := Int.bmod_lt (x := (Word.ofBits bits).value) positive
  rw [← read] at low high
  exact ⟨narrow, by omega, by omega⟩

end Bits

end NetSynth
