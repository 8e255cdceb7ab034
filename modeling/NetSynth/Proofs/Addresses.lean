import Mathlib.Algebra.Group.Nat.Defs
import Mathlib.Logic.ExistsUnique
import NetSynth.Logic.Integer
import NetSynth.Netlist.Net

/-! Addresses of a memory with one word for each declared index. They count the indexes from the
first bound to the last, and sixty-four-bit arithmetic finds the same addresses without an overflow,
also at the ends of its range. -/
namespace NetSynth

namespace MemoryWords

variable {memory : MemoryWords} {index : Int} {address : Nat}

/-- The bounds declare the index: it lies between them, in either direction. -/
def Declares (memory : MemoryWords) (index : Int) : Prop :=
  min memory.first memory.last ≤ index ∧ index ≤ max memory.first memory.last

instance (memory : MemoryWords) (index : Int) : Decidable (memory.Declares index) :=
  inferInstanceAs (Decidable (_ ∧ _))

def step (memory : MemoryWords) : Int := if memory.first ≤ memory.last then 1 else -1

/-- One word for each declared index. -/
def Filled (memory : MemoryWords) : Prop :=
  memory.words.size = (memory.last - memory.first).natAbs + 1

/-- Addresses number the declared indexes one to one. They begin at the first bound, each step
towards the last adds one, and no other index has an address. -/
structure Enumerates (memory : MemoryWords) : Prop where
  first : memory.address? memory.first = some 0
  last : memory.address? memory.last = some (memory.words.size - 1)
  next : ∀ {index address}, memory.address? index = some address → index ≠ memory.last →
    memory.address? (index + memory.step) = some (address + 1)
  inside : ∀ {index}, memory.Declares index →
    ∃ address < memory.words.size, memory.address? index = some address
  onto : ∀ {address}, address < memory.words.size →
    ∃! index, memory.Declares index ∧ memory.address? index = some address
  outside : ∀ {index}, ¬memory.Declares index →
    memory.address? index = none ∧ memory.word? index = none

theorem address?_eq_some_iff : memory.address? index = some address ↔
    address < memory.words.size ∧ index = memory.first + memory.step * address := by
  simp only [address?, step, Option.ite_none_right_eq_some, Option.some.injEq]
  split <;> omega

theorem address?_eq_natAbs (found : memory.address? index = some address) :
    address = (index - memory.first).natAbs := by
  obtain ⟨_, rfl⟩ := address?_eq_some_iff.mp found
  rw [step]
  split <;> omega

section Filled

variable (filled : memory.Filled)
include filled

theorem declares_iff : memory.Declares index ↔
    ∃ address < memory.words.size, index = memory.first + memory.step * address := by
  rw [Filled] at filled
  simp only [Declares, step]
  constructor
  · intro inside
    refine ⟨(index - memory.first).natAbs, by omega, ?_⟩
    split <;> omega
  · rintro ⟨address, bound, rfl⟩
    split <;> omega

theorem address?_isSome_iff : (memory.address? index).isSome ↔ memory.Declares index := by
  simp only [declares_iff filled, Option.isSome_iff_exists, address?_eq_some_iff]

theorem enumerates : memory.Enumerates where
  first := address?_eq_some_iff.mpr ⟨by rw [filled]; omega, by simp⟩
  last := by
    refine address?_eq_some_iff.mpr ⟨by rw [filled]; omega, ?_⟩
    rw [filled, step]
    split <;> omega
  next := by
    intro index address found other
    obtain ⟨bound, rfl⟩ := address?_eq_some_iff.mp found
    rw [filled] at bound
    rw [step] at other
    refine address?_eq_some_iff.mpr ⟨?_, by rw [Int.natCast_add, Int.mul_add]; omega⟩
    rw [filled]
    split at other <;> omega
  inside := by
    intro index inside
    obtain ⟨address, bound, same⟩ := (declares_iff filled).mp inside
    exact ⟨address, bound, address?_eq_some_iff.mpr ⟨bound, same⟩⟩
  onto := by
    intro address bound
    have declared := (declares_iff filled).mpr ⟨address, bound, rfl⟩
    refine ⟨_, ⟨declared, address?_eq_some_iff.mpr ⟨bound, rfl⟩⟩, ?_⟩
    rintro index ⟨_, found⟩
    exact (address?_eq_some_iff.mp found).2
  outside := by
    intro index outside
    have absent : memory.address? index = none := by
      rwa [← Option.not_isSome_iff_eq_none, address?_isSome_iff filled]
    exact ⟨absent, by rw [word?, absent, Option.bind_none]⟩

/-- The address of an index is its place in the list of the declared indexes. -/
theorem getElem?_indexes : (indexes memory.first memory.last)[address]? = some index ↔
    memory.address? index = some address := by
  have places : indexes memory.first memory.last = (List.range memory.words.size).map
      fun (place : Nat) => memory.first + memory.step * place := by
    rw [indexes, step, filled]
    congr 1
    funext place
    split <;> omega
  rw [address?_eq_some_iff, places, List.getElem?_map]
  by_cases inside : address < memory.words.size
  · simp [inside, eq_comm]
  · simp [inside]

end Filled

end MemoryWords

/-! ### Sixty-four-bit arithmetic -/

namespace Machine

def difference? (a b : BitVec 64) : Option (BitVec 64) :=
  if a.ssubOverflow b then none else some (a - b)

def product? (a b : BitVec 64) : Option (BitVec 64) :=
  if a.smulOverflow b then none else some (a * b)

def sum? (a b : BitVec 64) : Option (BitVec 64) :=
  if a.saddOverflow b then none else some (a + b)

/-- The address of an index among `count` words. A difference that overflows or is negative is no
address. -/
def address? (first last index : BitVec 64) (count : Nat) : Option Nat := do
  let offset ← if first.sle last then difference? index first else difference? first index
  if offset.msb then none else if offset.toNat < count then some offset.toNat else none

def index? (first last : BitVec 64) (place : Nat) : Option (BitVec 64) := do
  sum? first (← product? (if first.sle last then 1 else -1) (.ofNat 64 place))

variable {first last index : BitVec 64}

theorem fits_toInt (word : BitVec 64) : FitsInt64 word.toInt :=
  ⟨BitVec.le_toInt word, BitVec.toInt_lt⟩

/-- A difference is the exact one, and there is none where sixty-four bits do not hold it. -/
theorem difference?_map_toInt (a b : BitVec 64) : (difference? a b).map BitVec.toInt =
    if FitsInt64 (a.toInt - b.toInt) then some (a.toInt - b.toInt) else none := by
  have overflows : a.ssubOverflow b = true ↔ ¬FitsInt64 (a.toInt - b.toInt) := by
    simp only [BitVec.ssubOverflow, FitsInt64, Bool.or_eq_true, decide_eq_true_eq]
    omega
  rw [difference?]
  by_cases fits : FitsInt64 (a.toInt - b.toInt)
  · have exact := mt overflows.mp (not_not_intro fits)
    rw [if_neg exact, if_pos fits, Option.map_some, BitVec.toInt_sub_of_not_ssubOverflow exact]
  · rw [if_pos (overflows.mpr fits), if_neg fits, Option.map_none]

theorem msb_toNat (offset : BitVec 64) (count : Nat) :
    (if offset.msb then none else if offset.toNat < count then some offset.toNat else none) =
      if 0 ≤ offset.toInt ∧ offset.toInt < count then some offset.toInt.toNat else none := by
  by_cases negative : offset.msb
  · have below := of_decide_eq_true (BitVec.msb_eq_toInt.symm.trans negative)
    rw [if_pos negative, if_neg (by omega)]
  · rw [if_neg negative, BitVec.toInt_eq_toNat_of_msb ((Bool.not_eq_true _).mp negative)]
    simp

/-- Addresses are the exact ones for every index of sixty-four bits. A difference that overflows is
too large for the words of the memory. -/
theorem address?_eq {memory : MemoryWords} (isFirst : memory.first = first.toInt)
    (isLast : memory.last = last.toInt) (few : memory.words.size ≤ 2 ^ 63) (index : BitVec 64) :
    address? first last index memory.words.size = memory.address? index.toInt := by
  have exact : ∀ a b : BitVec 64,
      ((difference? a b).bind fun offset => if offset.msb then none
        else if offset.toNat < memory.words.size then some offset.toNat else none) =
      if 0 ≤ a.toInt - b.toInt ∧ a.toInt - b.toInt < memory.words.size then
        some (a.toInt - b.toInt).toNat else none := by
    intro a b
    have mapped := difference?_map_toInt a b
    by_cases fits : FitsInt64 (a.toInt - b.toInt)
    · rw [if_pos fits] at mapped
      obtain ⟨offset, found, same⟩ := Option.map_eq_some_iff.mp mapped
      rw [found, Option.bind_some, msb_toNat, same]
    · rw [if_neg fits, Option.map_eq_none_iff] at mapped
      rw [mapped, Option.bind_none, if_neg]
      unfold FitsInt64 at fits
      omega
  rw [address?, MemoryWords.address?, isFirst, isLast]
  by_cases up : first.toInt ≤ last.toInt
  · rw [if_pos (BitVec.sle_iff_toInt_le.mpr up)]
    simp only [if_pos up]
    exact exact index first
  · rw [if_neg (mt BitVec.sle_iff_toInt_le.mp up)]
    simp only [if_neg up]
    exact exact first index

theorem product?_of_fits {a b : BitVec 64} (fits : FitsInt64 (a.toInt * b.toInt)) :
    ∃ c, product? a b = some c ∧ c.toInt = a.toInt * b.toInt := by
  have exact : ¬a.smulOverflow b = true := by
    simp only [BitVec.smulOverflow, FitsInt64, Bool.or_eq_true, decide_eq_true_eq] at *
    omega
  exact ⟨_, if_neg exact, BitVec.toInt_mul_of_not_smulOverflow exact⟩

theorem sum?_of_fits {a b : BitVec 64} (fits : FitsInt64 (a.toInt + b.toInt)) :
    ∃ c, sum? a b = some c ∧ c.toInt = a.toInt + b.toInt := by
  have exact : ¬a.saddOverflow b = true := by
    simp only [BitVec.saddOverflow, FitsInt64, Bool.or_eq_true, decide_eq_true_eq] at *
    omega
  exact ⟨_, if_neg exact, BitVec.toInt_add_of_not_saddOverflow exact⟩

/-- The walk from the first bound to the last one meets the declared indexes, and no product or sum
of it overflows. -/
theorem index?_eq_some {memory : MemoryWords} (isFirst : memory.first = first.toInt)
    (isLast : memory.last = last.toInt) (filled : memory.Filled)
    (few : memory.words.size ≤ 2 ^ 63) {place : Nat} (inside : place < memory.words.size) :
    ∃ index, index? first last place = some index ∧
      index.toInt = memory.first + memory.step * place := by
  obtain ⟨low, high⟩ := (MemoryWords.declares_iff filled).mpr ⟨place, inside, rfl⟩
  have fitsFirst := fits_toInt first
  have fitsLast := fits_toInt last
  have step : (if first.sle last then 1 else -1 : BitVec 64).toInt = memory.step := by
    rw [MemoryWords.step, isFirst, isLast, BitVec.sle_eq_decide]
    by_cases up : first.toInt ≤ last.toInt
    · simp only [up, decide_true, if_true]
      rfl
    · simp only [up, decide_false, if_false, Bool.false_eq_true]
      rfl
  have count : (BitVec.ofNat 64 place).toInt = place := by
    rw [BitVec.toInt_ofNat']
    exact Int.bmod_eq_of_le (by omega) (by omega)
  obtain ⟨way, found, isWay⟩ := product?_of_fits (a := if first.sle last then 1 else -1)
    (b := .ofNat 64 place) (by
      rw [step, count, MemoryWords.step, FitsInt64]
      split <;> omega)
  rw [step, count] at isWay
  obtain ⟨index, reached, isIndex⟩ := sum?_of_fits (a := first) (b := way) (by
    rw [isWay, ← isFirst, FitsInt64]
    rw [isFirst, isLast] at *
    unfold FitsInt64 at *
    omega)
  exact ⟨index, by rw [index?, found, Option.bind_eq_bind, Option.bind_some, reached],
    by rw [isIndex, isWay, isFirst]⟩

/-- Sixty-four-bit arithmetic finds the addresses of a memory, for every index, and the walk that
makes its words meets each index at its address, without an overflow. -/
structure Serves (first last : BitVec 64) (memory : MemoryWords) : Prop where
  address : ∀ index : BitVec 64,
    address? first last index memory.words.size = memory.address? index.toInt
  walk : ∀ {place}, place < memory.words.size → ∃ index, index? first last place = some index ∧
    memory.address? index.toInt = some place

theorem serves {memory : MemoryWords} (isFirst : memory.first = first.toInt)
    (isLast : memory.last = last.toInt) (filled : memory.Filled)
    (few : memory.words.size ≤ 2 ^ 63) : Serves first last memory where
  address := address?_eq isFirst isLast few
  walk := by
    intro place inside
    obtain ⟨index, walked, exact⟩ := index?_eq_some isFirst isLast filled few inside
    exact ⟨index, walked, MemoryWords.address?_eq_some_iff.mpr ⟨inside, exact⟩⟩

end Machine

end NetSynth
