import Mathlib.Algebra.Order.Floor.Div
import NetSynth.Proofs.BitsRoundTrip

/-! Operations on vectors that look for each word before they use it. On the vectors that operations
make they find every word, so that only an index at or above the width stops them, and these vectors
are arrays of levels that are equal whenever their levels are. -/
namespace NetSynth

namespace Bits

/-- What stops a checked operation: an index that is not below the width, or a word that is not
there. -/
inductive Refusal where
  | outOfBounds (fault : OutOfBounds)
  | noWord (index : Nat)

namespace Checked

/-- Makes use of the word that holds the level at an index. -/
def access {α : Type} (bits : Bits) (index : Nat) (use : BitVec 64 → α) : Except Refusal α :=
  if index < bits.width then
    match bits.words[index / levelsPerWord]? with
    | some word => .ok (use word)
    | none => .error (.noWord (index / levelsPerWord))
  else .error (.outOfBounds ⟨index, bits.width⟩)

def get (bits : Bits) (index : Nat) : Except Refusal Level :=
  access bits index (slot · (index % levelsPerWord))

def set (bits : Bits) (index : Nat) (level : Level) : Except Refusal Bits :=
  access bits index fun _ => bits.withLevel index level

def ofNat (value width : Nat) : Except Refusal Bits :=
  (List.range (min width 64)).foldlM
    (fun bits index => if value.testBit index then set bits index .one else .ok bits) (zeros width)

/-- Writes the levels of letters at consecutive indexes, up to the first letter that is not known. -/
def readFrom (bits : Bits) : List Char → Nat → Except Refusal (Option Bits)
  | [], _ => .ok (some bits)
  | letter :: rest, index =>
    match Level.ofChar? letter with
    | some level => (set bits index level).bind fun written => readFrom written rest (index + 1)
    | none => .ok none

def parse? (text : String) : Except Refusal (Option Bits) :=
  if text.length < UInt32.size then readFrom (zeros text.length) text.toList.reverse 0 else .ok none

def levels (bits : Bits) : Except Refusal (List Level) :=
  (List.range bits.width).mapM (get bits)

/-- The written form, whose levels are read from the top down. -/
def text (bits : Bits) : Except Refusal String :=
  ((List.range bits.width).reverse.mapM (get bits)).map fun levels =>
    toString bits.width ++ "'b" ++ .ofList (levels.map Level.toChar)

variable {bits : Bits} {index : Nat}

theorem access_eq {α : Type} (canonical : bits.Canonical) (index : Nat) (use : BitVec 64 → α) :
    access bits index use =
      if index < bits.width then .ok (use (bits.words.getD (index / levelsPerWord) 0))
      else .error (.outOfBounds ⟨index, bits.width⟩) := by
  by_cases inside : index < bits.width
  · rw [access, if_pos inside, if_pos inside, Array.getD_eq_getD_getElem?,
      Array.getElem?_eq_getElem (canonical.stored inside)]
    rfl
  · rw [access, if_neg inside, if_neg inside]

theorem get_eq (canonical : bits.Canonical) (index : Nat) :
    get bits index = (bits.get index).mapError .outOfBounds := by
  rw [get, access_eq canonical, Bits.get]
  split <;> rfl

theorem set_eq (canonical : bits.Canonical) (index : Nat) (level : Level) :
    set bits index level = (bits.set index level).mapError .outOfBounds := by
  rw [set, access_eq canonical, Bits.set]
  split <;> rfl

theorem get_of_lt (canonical : bits.Canonical) (inside : index < bits.width) :
    get bits index = .ok (bits.level index) := by
  rw [get_eq canonical, Bits.get, if_pos inside]
  rfl

theorem set_of_lt (canonical : bits.Canonical) (inside : index < bits.width) (level : Level) :
    set bits index level = .ok (bits.withLevel index level) := by
  rw [set_eq canonical, Bits.set, if_pos inside]
  rfl

theorem mapM_get (canonical : bits.Canonical) {indexes : List Nat}
    (inside : ∀ index ∈ indexes, index < bits.width) :
    indexes.mapM (get bits) = .ok (indexes.map bits.level) := by
  induction indexes with
  | nil => rfl
  | cons index rest ih =>
    rw [List.forall_mem_cons] at inside
    rw [List.mapM_cons, get_of_lt canonical inside.1, ih inside.2]
    rfl

theorem levels_eq (canonical : bits.Canonical) : levels bits = .ok bits.levels :=
  mapM_get canonical fun _ => List.mem_range.mp

theorem text_eq (canonical : bits.Canonical) : text bits = .ok bits.text := by
  have inside : ∀ index ∈ (List.range bits.width).reverse, index < bits.width := by simp
  rw [text, mapM_get canonical inside, List.map_reverse]
  rfl

theorem foldlM_set (canonical : bits.Canonical) (value : Nat) {indexes : List Nat}
    (inside : ∀ index ∈ indexes, index < bits.width) :
    indexes.foldlM
        (fun bits index => if value.testBit index then set bits index .one else .ok bits) bits =
      .ok (indexes.foldl
        (fun bits index => if value.testBit index then bits.withLevel index .one else bits) bits) := by
  induction indexes generalizing bits with
  | nil => rfl
  | cons index rest ih =>
    rw [List.forall_mem_cons] at inside
    rw [List.foldlM_cons, List.foldl_cons]
    cases value.testBit index with
    | true =>
      rw [if_pos rfl, if_pos rfl, set_of_lt canonical inside.1]
      exact ih (canonical.withLevel inside.1 _) inside.2
    | false => exact ih canonical inside.2

theorem ofNat_eq (value width : Nat) : ofNat value width = .ok (Bits.ofNat value width) := by
  apply foldlM_set (canonical_zeros width)
  intro index member
  rw [List.mem_range] at member
  exact Nat.lt_of_lt_of_le member (Nat.min_le_left _ _)

theorem readFrom_eq {letters : List Char} {start : Nat} (canonical : bits.Canonical)
    (fits : start + letters.length ≤ bits.width) :
    readFrom bits letters start =
      .ok ((letters.mapM Level.ofChar?).map (bits.writeFrom · start)) := by
  induction letters generalizing bits start with
  | nil => rfl
  | cons letter rest ih =>
    rw [List.length_cons] at fits
    have inside : start < bits.width := by omega
    rw [readFrom, List.mapM_cons]
    cases Level.ofChar? letter with
    | none => rfl
    | some level =>
      dsimp only
      rw [set_of_lt canonical inside, Except.bind,
        ih (canonical.withLevel inside level) (by rw [width_withLevel]; omega)]
      cases rest.mapM Level.ofChar? <;> rfl

theorem parse?_eq (text : String) : parse? text = .ok (Bits.parse? text) := by
  by_cases short : text.length < UInt32.size
  · have fits : 0 + text.toList.reverse.length ≤ (zeros text.length).width := by
      rw [Nat.zero_add, List.length_reverse, String.length_toList]
      exact Nat.le_refl _
    rw [parse?, Bits.parse?, if_pos short, if_pos short, readFrom_eq (canonical_zeros _) fits,
      Level.mapM_ofChar?_reverse]
    cases read : text.toList.mapM Level.ofChar? with
    | none => rfl
    | some levels =>
      have count := width_of_letters read
      rw [width_ofLevels] at count
      rw [Option.map_some, Option.map_some, Option.map_some, ofLevels_eq_writeFrom, count]
  · rw [parse?, Bits.parse?, if_neg short, if_neg short]

end Checked

variable {bits other : Bits} {index : Nat}

theorem Canonical.size_eq (canonical : bits.Canonical) :
    bits.words.size = bits.width ⌈/⌉ levelsPerWord := by
  rw [canonical.size, wordCount, Nat.ceilDiv_eq_add_pred_div]
  rfl

/-- The slots at and above the width are zero. -/
theorem Canonical.slot_eq_zero (canonical : bits.Canonical)
    (stored : index / levelsPerWord < bits.words.size) (outside : bits.width ≤ index) :
    bits.words[index / levelsPerWord].extractLsb' (2 * (index % levelsPerWord)) 2 = 0 := by
  have zero := canonical.beyond index outside
  rw [Bits.level, Array.getD_eq_getD_getElem?, Array.getElem?_eq_getElem stored,
    Option.getD_some] at zero
  rw [← code_slot, zero]
  rfl

theorem Canonical.get_withLevel (canonical : bits.Canonical) (inside : index < bits.width)
    (level : Level) (place : Nat) :
    (bits.withLevel index level).get place = if place = index then .ok level else bits.get place := by
  rw [Bits.get, Bits.get, width_withLevel, level_withLevel (canonical.stored inside)]
  by_cases here : place = index
  · subst here
    rw [if_pos inside, if_pos rfl, if_pos rfl]
  · rw [if_neg here, if_neg here]

theorem Canonical.eq_iff_get (canonical : bits.Canonical) (canonical' : other.Canonical) :
    bits = other ↔
      bits.width = other.width ∧ ∀ index < bits.width, bits.get index = other.get index := by
  constructor
  · rintro rfl
    exact ⟨rfl, fun _ _ => rfl⟩
  · rintro ⟨widths, same⟩
    apply canonical.ext canonical' widths
    intro index inside
    have got := same index inside
    rw [Bits.get, Bits.get, if_pos inside, if_pos (widths ▸ inside)] at got
    exact Except.ok.inj got

theorem Built.eq_iff_text (built : bits.Built) (built' : other.Built) :
    bits = other ↔ bits.text = other.text := by
  constructor
  · rintro rfl
    rfl
  · intro same
    have read := built.parse?_afterMark
    rw [same, built'.parse?_afterMark] at read
    exact (Option.some.inj read).symm

/-- What a vector is to those who use it: an array of levels in the words that its width needs, with
one representation for each row of levels, whose operations stop at an index that is not below the
width and nowhere else. -/
structure Faithful (bits : Bits) : Prop where
  size : bits.words.size = bits.width ⌈/⌉ levelsPerWord
  unused : ∀ index (_ : index / levelsPerWord < bits.words.size), bits.width ≤ index →
    bits.words[index / levelsPerWord].extractLsb' (2 * (index % levelsPerWord)) 2 = 0
  written : ∀ index < bits.width, ∀ level, ∃ after, bits.set index level = .ok after ∧
    after.width = bits.width ∧
    ∀ place, after.get place = if place = index then .ok level else bits.get place
  beq_iff_get : ∀ other : Bits, other.Built → ((bits == other) = true ↔
    bits.width = other.width ∧ ∀ index < bits.width, bits.get index = other.get index)
  beq_iff_text : ∀ other : Bits, other.Built →
    ((bits == other) = true ↔ bits.text = other.text)
  refused : ∀ index, bits.width ≤ index → bits.get index = .error ⟨index, bits.width⟩ ∧
    ∀ level, bits.set index level = .error ⟨index, bits.width⟩
  answered : ∀ index < bits.width, ∃ level, bits.get index = .ok level
  checked_get : ∀ index, Checked.get bits index = (bits.get index).mapError .outOfBounds
  checked_set : ∀ index level,
    Checked.set bits index level = (bits.set index level).mapError .outOfBounds
  checked_levels : Checked.levels bits = .ok bits.levels
  checked_text : Checked.text bits = .ok bits.text

end Bits

open Bits

/-- Making a vector of a number or of a text stops nowhere, and every vector that operations make is
a faithful array. -/
theorem vectors_faithful :
    (∀ value width, Checked.ofNat value width = .ok (.ofNat value width)) ∧
      (∀ text, Checked.parse? text = .ok (parse? text)) ∧
      ∀ bits : Bits, bits.Built → bits.Faithful := by
  have faithful : ∀ bits : Bits, bits.Built → bits.Faithful := by
    intro bits built
    have canonical := built.canonical
    exact {
      size := canonical.size_eq
      unused := fun index stored outside => canonical.slot_eq_zero stored outside
      written := fun index inside level =>
        ⟨_, if_pos inside, rfl, canonical.get_withLevel inside level⟩
      beq_iff_get := fun other built' => beq_iff_eq.trans (canonical.eq_iff_get built'.canonical)
      beq_iff_text := fun other built' => beq_iff_eq.trans (built.eq_iff_text built')
      refused := fun index outside =>
        ⟨if_neg (Nat.not_lt_of_le outside), fun level => if_neg (Nat.not_lt_of_le outside)⟩
      answered := fun index inside => ⟨_, if_pos inside⟩
      checked_get := Checked.get_eq canonical
      checked_set := Checked.set_eq canonical
      checked_levels := Checked.levels_eq canonical
      checked_text := Checked.text_eq canonical }
  exact ⟨Checked.ofNat_eq, Checked.parse?_eq, faithful⟩

/-- A write to the one slot in use of a second word, which another write takes back. -/
theorem vectors_faithful_second_word :
    let after := (zeros 33).withLevel 32 .floating
    let cleared := after.withLevel 32 .zero
    (zeros 33).set 32 .floating = .ok after ∧ after.set 32 .zero = .ok cleared ∧
      after.words.size = 33 ⌈/⌉ levelsPerWord ∧ after.words[1].extractLsb' 2 2 = 0 ∧
      after.get 33 = .error ⟨33, 33⟩ ∧
      Checked.text after = .ok "33'bz00000000000000000000000000000000" ∧
      (cleared == zeros 33) = true := by
  intro after cleared
  obtain ⟨_, _, faithful⟩ := vectors_faithful
  have set : (zeros 33).set 32 .floating = .ok after := rfl
  have set' : after.set 32 .zero = .ok cleared := rfl
  have built : after.Built := .set (.zeros 33) set
  have holds := faithful after built
  have holds' := faithful cleared (.set built set')
  have shown : after.text = "33'bz00000000000000000000000000000000" := by decide +kernel
  exact ⟨set, set', holds.size, holds.unused 33 (by decide) (by decide),
    (holds.refused 33 (by decide)).1, shown ▸ holds.checked_text,
    (holds'.beq_iff_text (zeros 33) (.zeros 33)).mpr (by decide +kernel)⟩

end NetSynth
