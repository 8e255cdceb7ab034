import Mathlib.Tactic.FinCases
import NetSynth.Proofs.Packing
import NetSynth.Proofs.TextRows

/-! Reading the letters of a vector and writing them again. Letters are written from the top index
down and read into indexes from the bottom up. -/
namespace NetSynth

namespace Level

variable {letter : Char} {letters : List Char} {level : Level} {levels : List Level}

theorem isSome_ofChar? :
    (ofChar? letter).isSome = true ↔ letter ∈ ['0', '1', 'x', 'X', 'z', 'Z'] := by
  constructor
  · unfold ofChar?
    split <;> simp
  · intro member
    fin_cases member <;> rfl

/-- A level is written as the letter that was read, in lower case. -/
theorem toChar_of_ofChar? (read : ofChar? letter = some level) : level.toChar = letter.toLower := by
  have member := isSome_ofChar?.mp (Option.isSome_of_eq_some read)
  fin_cases member <;> cases read <;> rfl

theorem mapM_ofChar?_eq_some :
    letters.mapM ofChar? = some levels ↔ letters.map ofChar? = levels.map some := by
  induction letters generalizing levels with
  | nil => cases levels <;> simp
  | cons letter rest ih =>
    rw [List.mapM_cons, List.map_cons]
    cases ofChar? letter with
    | none => cases levels <;> simp
    | some level =>
      cases known : rest.mapM ofChar? <;> cases levels <;> simp [← ih, known]

theorem mapM_ofChar?_reverse (letters : List Char) :
    letters.reverse.mapM ofChar? = (letters.mapM ofChar?).map List.reverse := by
  ext levels
  rw [mapM_ofChar?_eq_some, List.map_reverse, List.reverse_eq_iff, ← List.map_reverse,
    ← mapM_ofChar?_eq_some, Option.map_eq_some_iff]
  simp [List.reverse_eq_iff]

theorem isSome_mapM_ofChar? :
    (letters.mapM ofChar?).isSome = true ↔ ∀ letter ∈ letters, (ofChar? letter).isSome = true := by
  induction letters with
  | nil => simp
  | cons letter rest ih =>
    rw [List.mapM_cons, List.forall_mem_cons, ← ih]
    cases ofChar? letter <;> cases rest.mapM ofChar? <;> simp

end Level

namespace Bits

variable {bits : Bits} {text : String}

variable {levels : List Level}

theorem width_of_letters (read : text.toList.mapM Level.ofChar? = some levels) :
    (ofLevels levels.reverse).width = text.length := by
  have count := congrArg List.length (Level.mapM_ofChar?_eq_some.mp read)
  rw [List.length_map, List.length_map, String.length_toList] at count
  rw [width_ofLevels, List.length_reverse, count]

theorem get_of_letters {index : Nat} (read : text.toList.mapM Level.ofChar? = some levels)
    (inside : index < text.toList.reverse.length) :
    ∃ level, Level.ofChar? text.toList.reverse[index] = some level ∧
      (ofLevels levels.reverse).get index = .ok level := by
  have rows := congrArg List.reverse (Level.mapM_ofChar?_eq_some.mp read)
  rw [← List.map_reverse, ← List.map_reverse] at rows
  have inside' : index < levels.reverse.length := by
    rw [← List.length_map, ← rows, List.length_map]
    exact inside
  have letter := List.getElem_of_eq rows (by rwa [List.length_map])
  rw [List.getElem_map, List.getElem_map] at letter
  have below : index < (ofLevels levels.reverse).width := by rwa [width_ofLevels]
  exact ⟨_, letter, by rw [Bits.get, if_pos below, level_ofLevels inside']⟩

theorem text_of_letters (read : text.toList.mapM Level.ofChar? = some levels) :
    (ofLevels levels.reverse).text = toString text.length ++ "'b" ++ text.map Char.toLower := by
  have letters : levels.map Level.toChar = text.toList.map Char.toLower := by
    apply List.ext_getElem?
    intro index
    have letter := congrArg (·[index]?) (Level.mapM_ofChar?_eq_some.mp read)
    rw [List.getElem?_map, List.getElem?_map] at letter ⊢
    cases known : levels[index]? <;> cases known' : text.toList[index]? <;> simp_all
    exact Level.toChar_of_ofChar? letter
  rw [Bits.text, width_of_letters read, digits, levels_ofLevels, List.reverse_reverse, letters,
    ← String.toList_map, String.ofList_toList]

theorem toList_digits (bits : Bits) :
    bits.digits.toList = bits.levels.reverse.map Level.toChar :=
  String.toList_ofList

theorem length_digits (bits : Bits) : bits.digits.length = bits.width := by
  rw [← String.length_toList, toList_digits, List.length_map, List.length_reverse, length_levels]

/-- The letters of a vector with a width of thirty-two bits are read as the vector. -/
theorem Canonical.parse?_digits (canonical : bits.Canonical) (narrow : bits.width < UInt32.size) :
    parse? bits.digits = some bits := by
  apply parse?_eq_some.mpr
  constructor
  · rwa [length_digits]
  · exists bits.levels.reverse
    constructor
    · rw [toList_digits, Level.mapM_ofChar?_eq_some, List.map_map]
      exact List.map_congr_left fun level _ => Level.ofChar?_toChar level
    · rw [List.reverse_reverse, canonical.ofLevels_levels]

/-- What a written vector has behind its mark. -/
def afterMark (text : String) : String :=
  .ofList ((text.toList.dropWhile (· ≠ '\x27')).drop 2)

theorem afterMark_text (bits : Bits) : afterMark bits.text = bits.digits := by
  have digits : ∀ letter ∈ (toString bits.width).toList, letter ≠ '\x27' := by
    intro letter member mark
    have digit := isDigit_of_mem_repr member
    rw [mark] at digit
    exact absurd digit (by decide)
  rw [afterMark, Bits.text, String.toList_append, String.toList_append, List.append_assoc,
    List.dropWhile_append_of_pos (by simpa using digits)]
  exact String.ofList_toList

theorem Built.width_lt (built : bits.Built) : bits.width < UInt32.size := by
  induction built with
  | zeros width => exact width.toNat_lt_size
  | ofNat value width => exact (width_ofNat _ _).symm ▸ width.toNat_lt_size
  | parsed read =>
    obtain ⟨short, levels, known, rfl⟩ := parse?_eq_some.mp read
    rwa [width_of_letters known]
  | set _ written ih =>
    obtain ⟨_, rfl⟩ := set_eq_ok.mp written
    exact ih

/-- A vector that operations made is what the letters of its written form are read as. -/
theorem Built.parse?_afterMark (built : bits.Built) : parse? (afterMark bits.text) = some bits := by
  rw [afterMark_text]
  exact built.canonical.parse?_digits built.width_lt

end Bits

open Bits

/-- A text is read if all of its letters are known, as the levels of its letters from the right, and
what was read is written as the text in lower case. A vector is what its letters are read as. -/
theorem letters_round_trip :
    (∀ text : String, text.length < UInt32.size →
      ((parse? text).isSome = true ↔
        ∀ letter ∈ text.toList, letter ∈ ['0', '1', 'x', 'X', 'z', 'Z']) ∧
      ∀ bits, parse? text = some bits →
        bits.width = text.length ∧
        (∀ index (_ : index < text.toList.reverse.length), ∃ level,
          Level.ofChar? text.toList.reverse[index] = some level ∧ bits.get index = .ok level) ∧
        bits.text = toString text.length ++ "'b" ++ text.map Char.toLower) ∧
    ∀ bits : Bits, bits.Built → parse? (afterMark bits.text) = some bits := by
  constructor
  · intro text short
    constructor
    · rw [parse?, if_pos short, Option.isSome_map, Level.isSome_mapM_ofChar?]
      simp only [Level.isSome_ofChar?]
    · intro bits read
      obtain ⟨_, levels, known, rfl⟩ := parse?_eq_some.mp read
      exact ⟨width_of_letters known, fun index inside => get_of_letters known inside,
        text_of_letters known⟩
  · intro bits built
    exact built.parse?_afterMark

/-- A text in both cases whose leftmost letter is in the second word. -/
theorem letters_round_trip_mixed :
    let text := "Zx100000000000000000000000000000X"
    ∃ bits, parse? text = some bits ∧ bits.width = 33 ∧ bits.get 32 = .ok .floating ∧
      bits.text = "33'bzx100000000000000000000000000000x" ∧
      parse? (afterMark bits.text) = some bits := by
  intro text
  obtain ⟨reads, writes⟩ := letters_round_trip
  obtain ⟨accepts, holds⟩ := reads text (by decide +kernel)
  obtain ⟨bits, read⟩ := Option.isSome_iff_exists.mp (accepts.mpr (by simp [text]))
  obtain ⟨width, levels, written⟩ := holds bits read
  obtain ⟨level, letter, got⟩ := levels 32 (by decide +kernel)
  have top : level = .floating := Option.some.inj (letter.symm.trans (by decide +kernel))
  exact ⟨bits, read, width.trans (by decide +kernel), top ▸ got,
    written.trans (by decide +kernel), writes bits (.parsed read)⟩

end NetSynth
