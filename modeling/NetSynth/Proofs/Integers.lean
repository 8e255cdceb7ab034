import Mathlib.Algebra.BigOperators.Intervals
import NetSynth.Proofs.Addresses
import NetSynth.Proofs.Numbers
import NetSynth.Proofs.Packing

/-! Integers as vectors and vectors as integers. At most sixty-four definite levels have the number
that the high ones write, and in two's complement they have every integer of their width. Machine
words find the same integers, but for one difference that overflows at a width of sixty-three. -/
namespace NetSynth

namespace Word

/-- High bits write the powers of their indexes. -/
theorem value_eq_sum (bit : Nat → Bool) (width : Nat) :
    value ((List.range width).map bit) =
      ∑ index ∈ Finset.range width with bit index = true, 2 ^ index := by
  rw [Finset.sum_filter]
  induction width with
  | zero => rfl
  | succ width ih =>
    rw [List.range_succ, List.map_append, List.map_singleton, value_concat, ih, List.length_map,
      List.length_range, Finset.sum_range_succ]
    cases bit width <;> simp

theorem testBit_value (word : Word) (index : Nat) :
    (value word).testBit index = word.getD index false := by
  induction word generalizing index with
  | nil => simp [value]
  | cons bit rest ih =>
    have half : value (bit :: rest) / 2 = value rest := by
      cases bit <;> simp only [value, Bool.toNat_true, Bool.toNat_false] <;> omega
    cases index with
    | zero => cases bit <;> simp [value, Nat.testBit_zero]
    | succ index => rw [Nat.testBit_succ, half, ih, List.getD_cons_succ]

end Word

namespace Bits

variable {bits : Bits} {value width : Nat}

theorem Canonical.foldl_testBit (canonical : bits.Canonical) (value : Nat) {count : Nat}
    (fits : count ≤ bits.width) :
    let made := (List.range count).foldl
      (fun bits index => if value.testBit index then bits.withLevel index .one else bits) bits
    made.Canonical ∧ made.width = bits.width ∧ ∀ index, made.level index =
      if index < count ∧ value.testBit index = true then .one else bits.level index := by
  induction count with
  | zero => exact ⟨canonical, rfl, fun index => (if_neg (by omega)).symm⟩
  | succ count ih =>
    obtain ⟨canonicalBefore, width, levels⟩ := ih (by omega)
    rw [List.range_succ, List.foldl_append, List.foldl_cons, List.foldl_nil]
    have inside : count < ((List.range count).foldl (fun bits index =>
        if value.testBit index then bits.withLevel index .one else bits) bits).width := by
      rw [width]
      omega
    cases high : value.testBit count with
    | true =>
      refine ⟨canonicalBefore.withLevel inside _, width, fun index => ?_⟩
      rw [if_pos rfl, level_withLevel (canonicalBefore.stored inside), levels]
      grind
    | false =>
      refine ⟨canonicalBefore, width, fun index => ?_⟩
      rw [if_neg Bool.false_ne_true, levels]
      grind

theorem level_ofNat (value width index : Nat) : (ofNat value width).level index =
    if index < min width 64 ∧ value.testBit index = true then .one else .zero := by
  have fits : min width 64 ≤ (zeros width).width := Nat.min_le_left _ _
  obtain ⟨_, _, levels⟩ := (canonical_zeros width).foldl_testBit value fits
  rw [ofNat, levels, level_zeros]

theorem isDefinite_ofNat (value width : Nat) : (ofNat value width).isDefinite = true := by
  rw [isDefinite, levels, List.all_map, List.all_eq_true]
  intro index _
  rw [Function.comp_apply, level_ofNat]
  split <;> rfl

theorem ofBits_ofNat (value : Nat) (narrow : width ≤ 64) :
    Word.ofBits (ofNat value width) = (List.range width).map value.testBit := by
  rw [Word.ofBits, levels, width_ofNat, List.map_map]
  apply List.map_congr_left
  intro index inside
  rw [List.mem_range] at inside
  rw [Function.comp_apply, level_ofNat]
  cases high : value.testBit index with
  | true => rw [if_pos ⟨by omega, rfl⟩, beq_self_eq_true]
  | false => simp

theorem level_isDefinite_iff {level : Level} :
    level.isDefinite = true ↔ level = .zero ∨ level = .one := by
  cases level <;> simp [Level.isDefinite]

theorem isDefinite_iff : bits.isDefinite = true ↔
    ∀ index < bits.width, bits.level index = .zero ∨ bits.level index = .one := by
  simp [isDefinite, levels, level_isDefinite_iff]

theorem value_ofBits (bits : Bits) : (Word.ofBits bits).value =
    ∑ index ∈ Finset.range bits.width with bits.level index = .one, 2 ^ index := by
  rw [Word.ofBits, levels, List.map_map, Word.value_eq_sum]
  simp only [Function.comp_apply, beq_iff_eq]

theorem toNat?_eq_some : bits.toNat? = some value ↔
    bits.width ≤ 64 ∧ bits.isDefinite = true ∧ (Word.ofBits bits).value = value := by
  rw [toNat?, Option.ite_none_right_eq_some, value?_eq_some]

theorem toNat?_ofNat (value : Nat) (narrow : width ≤ 64) :
    (ofNat value width).toNat? = some (value % 2 ^ width) := by
  apply toNat?_eq_some.mpr
  rw [width_ofNat, ofBits_ofNat value narrow, Word.value_testBit]
  exact ⟨narrow, isDefinite_ofNat value width, rfl⟩

/-- In two's complement the top level weighs negatively, twice what it weighs without a sign. -/
theorem number_signed (wide : 0 < bits.width) : bits.number true =
    (Word.ofBits bits).value - 2 ^ bits.width *
      if bits.level (bits.width - 1) = .one then 1 else 0 := by
  have top : Word.top (Word.ofBits bits) = true ↔ bits.level (bits.width - 1) = .one := by
    rw [← top?_eq_one_iff, top?, if_neg (Nat.ne_of_gt wide)]
    simp
  rw [number, Word.toInt, Word.length_ofBits, Bool.true_and]
  simp only [top]
  split <;> simp

theorem toInt?_of_none (none : bits.toNat? = none) (signed : Bool) :
    bits.toInt? signed = Option.none := by
  simp only [toInt?, none, Option.bind_eq_bind, Option.bind_none]

theorem toInt?_signed (raw : bits.toNat? = some value) :
    bits.toInt? true = some (bits.number true) := by
  obtain ⟨narrow, definite, _⟩ := toNat?_eq_some.mp raw
  rw [toInt?_of_definite definite, if_pos (isShort_signed narrow)]

theorem toInt?_unsigned (bits : Bits) : bits.toInt? false =
    bits.toNat?.bind fun value => if value < 2 ^ 63 then some (value : Int) else none := by
  cases raw : bits.toNat? with
  | none => rw [toInt?_of_none raw, Option.bind_none]
  | some value =>
    obtain ⟨narrow, definite, written⟩ := toNat?_eq_some.mp raw
    have same : bits.number false = value := by
      rw [number, Word.toInt, Bool.false_and, if_neg Bool.false_ne_true, written]
    have short : bits.IsShort false ↔ value < 2 ^ 63 := by
      rw [IsShort, FitsInt64, same]
      omega
    rw [toInt?_of_definite definite, Option.bind_some, same]
    simp only [short]

theorem toInt?_empty (empty : bits.width = 0) : bits.toInt? true = bits.toInt? false := by
  simp [toInt?, top?, empty]

theorem toInt?_ofNat_emod {number : Int} (narrow : width ≤ 64) (low : -2 ^ width ≤ number * 2)
    (high : number * 2 < 2 ^ width) :
    (ofNat (number % 2 ^ 64).toNat width).toInt? true = some number := by
  have power : (2 : Int) ^ width = (2 ^ width : Nat) := by simp
  have divides : ((2 ^ width : Nat) : Int) ∣ 2 ^ 64 := power ▸ pow_dvd_pow 2 narrow
  have whole : ((number % 2 ^ 64).toNat : Int) = number % 2 ^ 64 :=
    Int.toNat_of_nonneg (Int.emod_nonneg _ (by decide))
  rw [power] at low high
  rw [toInt?_signed (toNat?_ofNat _ narrow), Bits.number, Word.toInt_eq_bmod, Word.length_ofBits,
    width_ofNat, ofBits_ofNat _ narrow, Word.value_testBit, Int.natCast_mod, whole,
    Int.emod_emod_of_dvd _ divides, Int.emod_bmod, Int.bmod_eq_of_le_mul_two low high]

end Bits

/-! ### Sixty-four-bit arithmetic -/

namespace Machine

def lowBits (value : BitVec 64) (width : Nat) : Bits :=
  (List.range (min width 64)).foldl
    (fun bits index => if value >>> index &&& 1 ≠ 0 then bits.withLevel index .one else bits)
    (.zeros width)

/-- The number of a row of levels, from a place on, gathered in a word. -/
def gather? : List Level → Nat → BitVec 64 → Option (BitVec 64)
  | [], _, sum => some sum
  | .zero :: rest, place, sum => gather? rest (place + 1) sum
  | .one :: rest, place, sum => gather? rest (place + 1) (sum ||| (1 : BitVec 64) <<< place)
  | .unknown :: _, _, _ | .floating :: _, _, _ => none

def number? (bits : Bits) : Option (BitVec 64) :=
  if bits.width ≤ 64 then gather? bits.levels 0 0 else none

/-- The integer of a number that was gathered from `width` levels, and nothing where the difference
that takes the weight of the sign away overflows. -/
def signed? (raw : BitVec 64) (width : Nat) : Option (BitVec 64) :=
  if 64 ≤ width then some raw
  else if raw &&& (1 : BitVec 64) <<< (width - 1) ≠ 0 then
    difference? raw ((1 : BitVec 64) <<< width)
  else some raw

/-- The integer of a vector, if it has one, and nothing at all where a difference overflows. -/
def integer? (bits : Bits) (signed : Bool) : Option (Option (BitVec 64)) :=
  match number? bits with
  | none => some none
  | some raw =>
    if signed = true ∧ 0 < bits.width then (signed? raw bits.width).map some
    else some (if raw.msb then none else some raw)

variable {bits : Bits} {raw : BitVec 64} {width : Nat}

theorem lowBits_eq (value : BitVec 64) (width : Nat) :
    lowBits value width = .ofNat value.toNat width := by
  have tested (index : Nat) : value >>> index &&& 1 ≠ 0 ↔ value.toNat.testBit index = true := by
    rw [Nat.testBit, bne_iff_ne, Nat.and_comm, ne_eq, ne_eq, ← BitVec.toNat_inj, BitVec.toNat_and,
      BitVec.toNat_ushiftRight]
    rfl
  simp only [lowBits, tested, Bits.ofNat]

theorem gather?_map {levels : List Level} {place : Nat} {sum : BitVec 64}
    (low : sum.toNat < 2 ^ place) (fits : place + levels.length ≤ 64) :
    (gather? levels place sum).map BitVec.toNat =
      (Level.value? levels).map (sum.toNat + 2 ^ place * ·) := by
  induction levels generalizing place sum with
  | nil => rfl
  | cons level rest ih =>
    rw [List.length_cons] at fits
    have double : 2 ^ (place + 1) = 2 ^ place * 2 := Nat.pow_succ _ _
    cases level with
    | zero =>
      rw [gather?, Level.value?, ih (by omega) (by omega), Option.map_map]
      simp only [double, Nat.mul_assoc, Function.comp_def]
    | one =>
      have added := toNat_setBit low (by omega)
      rw [gather?, Level.value?, ih (by omega) (by omega), Option.map_map, added]
      simp only [double, Nat.mul_assoc, Nat.mul_add, Nat.mul_one, Nat.add_assoc,
        Nat.add_comm (2 ^ place), Function.comp_def]
    | unknown => rfl
    | floating => rfl

theorem number?_map (bits : Bits) : (number? bits).map BitVec.toNat = bits.toNat? := by
  rw [number?, Bits.toNat?]
  by_cases narrow : bits.width ≤ 64
  · rw [if_pos narrow, if_pos narrow, gather?_map (by decide) (by simpa using narrow), Bits.value?]
    simp
  · rw [if_neg narrow, if_neg narrow, Option.map_none]

theorem unsigned_map (raw : BitVec 64) : (if raw.msb then none else some raw).map BitVec.toInt =
    if raw.toNat < 2 ^ 63 then some (raw.toNat : Int) else none := by
  rw [BitVec.msb_eq_decide]
  by_cases small : raw.toNat < 2 ^ 63
  · rw [if_neg (by simpa using small), if_pos small, Option.map_some,
      BitVec.toInt_eq_toNat_of_lt (by omega)]
  · rw [if_pos (by simpa using small), if_neg small, Option.map_none]

theorem sign_iff (gathered : bits.toNat? = some raw.toNat) (wide : 0 < bits.width) :
    raw &&& (1 : BitVec 64) <<< (bits.width - 1) ≠ 0 ↔ bits.level (bits.width - 1) = .one := by
  obtain ⟨narrow, _, written⟩ := Bits.toNat?_eq_some.mp gathered
  have inside : bits.width - 1 < (Word.ofBits bits).length := by
    rw [Word.length_ofBits]
    omega
  have read : raw.getLsbD (bits.width - 1) = (bits.level (bits.width - 1) == .one) := by
    rw [← BitVec.testBit_toNat, ← written, Word.testBit_value, List.getD_eq_getElem?_getD,
      List.getElem?_eq_getElem inside, Option.getD_some]
    simp [Word.ofBits, Bits.levels]
  have weight : BitVec.twoPow 64 (bits.width - 1) ≠ 0 := by
    rw [ne_eq, ← BitVec.toNat_inj, BitVec.toNat_twoPow_of_lt (by omega)]
    exact Nat.ne_of_gt (Nat.two_pow_pos _)
  change raw &&& BitVec.twoPow 64 (bits.width - 1) ≠ 0 ↔ _
  rw [BitVec.and_twoPow, read]
  by_cases high : bits.level (bits.width - 1) = .one
  · rw [high, beq_self_eq_true, if_pos rfl]
    exact iff_of_true weight rfl
  · rw [beq_false_of_ne high, if_neg Bool.false_ne_true]
    exact iff_of_false (not_not_intro rfl) high

/-- The weight just above the sign of a vector. In a word it may be that of the sign of the word. -/
theorem toInt_weight (inside : width < 64) :
    ((1 : BitVec 64) <<< width).toInt = if width = 63 then -2 ^ 63 else 2 ^ width := by
  change (BitVec.twoPow 64 width).toInt = _
  rw [BitVec.toInt_twoPow, if_neg (Nat.not_le_of_lt inside)]
  by_cases last : width = 63
  · rw [last]
    rfl
  · rw [if_neg (by omega), if_neg last]

theorem signed?_map (gathered : bits.toNat? = some raw.toNat) (wide : 0 < bits.width) :
    (signed? raw bits.width).map BitVec.toInt =
      if bits.width = 63 ∧ bits.level 62 = .one then none else some (bits.number true) := by
  obtain ⟨narrow, _, written⟩ := Bits.toNat?_eq_some.mp gathered
  have number := Bits.number_signed wide
  rw [written] at number
  rw [signed?]
  by_cases full : 64 ≤ bits.width
  · have same : bits.width = 64 := by omega
    rw [if_pos full, if_neg (by omega), Option.map_some, Bits.number, Word.toInt_eq_bmod, written,
      Word.length_ofBits, same, BitVec.toInt_eq_toNat_bmod]
  · have small : raw.toNat < 2 ^ bits.width := by
      rw [← written, ← Word.length_ofBits]
      exact Word.value_lt _
    have power : 2 ^ bits.width ≤ 2 ^ 63 := Nat.pow_le_pow_right (by decide) (by omega)
    have plain : raw.toInt = raw.toNat := BitVec.toInt_eq_toNat_of_lt (by omega)
    rw [if_neg full]
    by_cases high : bits.level (bits.width - 1) = .one
    · rw [if_pos high, Int.mul_one] at number
      rw [if_pos ((sign_iff gathered wide).mpr high), difference?_map_toInt, plain,
        toInt_weight (Nat.lt_of_not_le full), number]
      by_cases last : bits.width = 63
      · rw [last] at high
        rw [if_pos last, if_neg, if_pos ⟨last, high⟩]
        unfold FitsInt64
        omega
      · have fits := (Bits.isShort_signed narrow).2
        rw [number] at fits
        rw [if_neg last, if_pos fits, if_neg fun both => last both.1]
    · rw [if_neg high, Int.mul_zero, Int.sub_zero] at number
      have other : ¬(bits.width = 63 ∧ bits.level 62 = .one) := by
        rintro ⟨last, top⟩
        rw [last] at high
        exact high top
      rw [if_neg (mt (sign_iff gathered wide).mp high), Option.map_some, plain, if_neg other, number]

/-- The vectors whose sign has a weight that words cannot take away. -/
def Overflows (bits : Bits) (signed : Bool) : Prop :=
  signed = true ∧ bits.width = 63 ∧ bits.isDefinite = true ∧ bits.level 62 = .one

instance (bits : Bits) (signed : Bool) : Decidable (Overflows bits signed) :=
  inferInstanceAs (Decidable (_ ∧ _))

theorem Overflows.toNat?_ne_none {signed : Bool} (overflows : Overflows bits signed) :
    bits.toNat? ≠ none := by
  obtain ⟨_, width, definite, _⟩ := overflows
  rw [Bits.toNat?_eq_some.mpr ⟨by omega, definite, rfl⟩]
  exact Option.some_ne_none _

/-- Words find the integer of every vector, or that it has none, except where a difference overflows. -/
theorem integer?_map (bits : Bits) (signed : Bool) :
    (integer? bits signed).map (·.map BitVec.toInt) =
      if Overflows bits signed then none else some (bits.toInt? signed) := by
  have gathered := number?_map bits
  cases found : number? bits with
  | none =>
    rw [found, Option.map_none] at gathered
    rw [integer?, found, if_neg fun overflows => overflows.toNat?_ne_none gathered.symm,
      Bits.toInt?_of_none gathered.symm]
    rfl
  | some raw =>
    rw [found, Option.map_some] at gathered
    have definite := (Bits.toNat?_eq_some.mp gathered.symm).2.1
    rw [integer?, found]
    dsimp only
    by_cases negates : signed = true ∧ 0 < bits.width
    · obtain ⟨rfl, wide⟩ := negates
      have mapped := signed?_map gathered.symm wide
      have same : Overflows bits true ↔ bits.width = 63 ∧ bits.level 62 = .one := by
        simp [Overflows, definite]
      have swapped : ((signed? raw bits.width).map some).map (·.map BitVec.toInt) =
          ((signed? raw bits.width).map BitVec.toInt).map some := by
        cases signed? raw bits.width <;> rfl
      rw [if_pos ⟨rfl, wide⟩, swapped, mapped, Bits.toInt?_signed gathered.symm]
      simp only [same, apply_ite (Option.map some), Option.map_none, Option.map_some]
    · have other : ¬Overflows bits signed := by
        rintro ⟨isSigned, width, _⟩
        exact negates ⟨isSigned, by omega⟩
      have plain : bits.toInt? signed = bits.toInt? false := by
        cases signed with
        | true => exact Bits.toInt?_empty (Nat.eq_zero_of_not_pos fun wide => negates ⟨rfl, wide⟩)
        | false => rfl
      rw [if_neg negates, if_neg other, Option.map_some, unsigned_map, plain, Bits.toInt?_unsigned,
        ← gathered, Option.bind_some]

end Machine

open Bits

/-- The integers of a vector are exactly what its levels write, and words find them. -/
structure Bits.WritesIntegers (bits : Bits) : Prop where
  natural : ∀ value, bits.toNat? = some value ↔ bits.width ≤ 64 ∧
    (∀ index < bits.width, bits.level index = .zero ∨ bits.level index = .one) ∧
    value = ∑ index ∈ Finset.range bits.width with bits.level index = .one, 2 ^ index
  unsigned : bits.toInt? false =
    bits.toNat?.bind fun value => if value < 2 ^ 63 then some (value : Int) else none
  signed : 0 < bits.width → bits.toInt? true = bits.toNat?.map fun (value : Nat) =>
    (value : Int) - 2 ^ bits.width * if bits.level (bits.width - 1) = .one then 1 else 0
  words_natural : (Machine.number? bits).map BitVec.toNat = bits.toNat?
  words_integer : ∀ signed, (Machine.integer? bits signed).map (·.map BitVec.toInt) =
    if Machine.Overflows bits signed then none else some (bits.toInt? signed)

theorem Bits.writesIntegers (bits : Bits) : bits.WritesIntegers where
  natural := by
    intro value
    rw [toNat?_eq_some, isDefinite_iff, value_ofBits, eq_comm (a := value)]
  unsigned := toInt?_unsigned bits
  signed := by
    intro wide
    cases raw : bits.toNat? with
    | none => rw [toInt?_of_none raw, Option.map_none]
    | some value =>
      rw [toInt?_signed raw, number_signed wide, (toNat?_eq_some.mp raw).2.2, Option.map_some]
  words_natural := Machine.number?_map bits
  words_integer := Machine.integer?_map bits

/-- A number of sixty-four bits makes a definite vector that has the remainder of the number, the
integers of every vector are what its levels write, and every integer that a width holds in two's
complement comes back from its low bits. -/
theorem integer_conversions_exact :
    (∀ (value : BitVec 64) (width : Nat),
      Machine.lowBits value width = .ofNat value.toNat width ∧
      (ofNat value.toNat width).isDefinite = true ∧
      (width ≤ 64 → (ofNat value.toNat width).toNat? = some (value.toNat % 2 ^ width))) ∧
    (∀ bits : Bits, bits.WritesIntegers) ∧
    ∀ (width : Nat) (number : Int), 0 < width → width ≤ 64 →
      -2 ^ (width - 1) ≤ number → number < 2 ^ (width - 1) →
      (ofNat (number % 2 ^ 64).toNat width).toInt? true = some number ∧
      (width ≠ 63 → Machine.integer? (Machine.lowBits (.ofInt 64 number) width) true =
        some (some (.ofInt 64 number))) := by
  refine ⟨fun value width => ⟨Machine.lowBits_eq value width, isDefinite_ofNat _ _,
    toNat?_ofNat _⟩, writesIntegers, ?_⟩
  intro width number wide narrow low high
  have double : (2 : Int) ^ width = 2 ^ (width - 1) * 2 := by
    rw [← Int.pow_succ, Nat.succ_eq_add_one, Nat.sub_add_cancel wide]
  have read : (ofNat (number % 2 ^ 64).toNat width).toInt? true = some number :=
    toInt?_ofNat_emod narrow (by omega) (by omega)
  refine ⟨read, fun other => ?_⟩
  have words := Machine.integer?_map (ofNat (number % 2 ^ 64).toNat width) true
  rw [if_neg fun overflows => other ((width_ofNat _ _).symm.trans overflows.2.1), read] at words
  obtain ⟨_, found, mapped⟩ := Option.map_eq_some_iff.mp words
  obtain ⟨word, rfl, same⟩ := Option.map_eq_some_iff.mp mapped
  have whole : (BitVec.ofInt 64 number).toNat = (number % 2 ^ 64).toNat := BitVec.toNat_ofInt ..
  rw [Machine.lowBits_eq, whole, found, ← same, BitVec.ofInt_toInt]

/-- The lowest integers of words, of vectors one level narrower, where words overflow, and of four
levels. -/
theorem integer_conversions_exact_lowest :
    (ofNat 0x2e 4).toNat? = some 14 ∧ (ofNat 14 4).toInt? true = some (-2) ∧
      (ofNat (2 ^ 63) 64).toInt? true = some (-2 ^ 63) ∧
      (ofNat (2 ^ 63) 64).toInt? false = none ∧
      Machine.integer? (Machine.lowBits (.ofInt 64 (-2 ^ 63)) 64) true =
        some (some (.ofInt 64 (-2 ^ 63))) ∧
      (ofNat (3 * 2 ^ 62) 63).toInt? true = some (-2 ^ 62) ∧
      (Machine.integer? (ofNat (3 * 2 ^ 62) 63) true).map (·.map BitVec.toInt) = none := by
  obtain ⟨made, writes, returns⟩ := integer_conversions_exact
  obtain ⟨_, _, remainder⟩ := made 0x2e 4
  obtain ⟨two, _⟩ := returns 4 (-2) (by decide) (by decide) (by decide) (by decide)
  obtain ⟨lowest, words⟩ := returns 64 (-2 ^ 63) (by decide) (by decide) (by decide) (by decide)
  obtain ⟨narrower, _⟩ := returns 63 (-2 ^ 62) (by decide) (by decide) (by decide) (by decide)
  have unsigned := (writes (ofNat (2 ^ 63) 64)).unsigned
  have overflow := (writes (ofNat (3 * 2 ^ 62) 63)).words_integer true
  rw [if_pos (by decide +kernel)] at overflow
  exact ⟨remainder (by decide), two, lowest, unsigned.trans (by decide +kernel),
    words (by decide), narrower, overflow⟩

end NetSynth
