import NetSynth.Logic.BitsText

/-! Packed levels: what a write to one slot of a word changes, and the vectors whose words hold
their levels and nothing else. -/
namespace NetSynth.Bits

variable {bits other : Bits} {word word' : BitVec 64} {index : Nat} {level : Level}

theorem code_slot (word : BitVec 64) (place : Nat) :
    (slot word place).code = word.extractLsb' (2 * place) 2 :=
  Level.code_ofCode _

theorem getLsbD_withSlot (word : BitVec 64) (place : Nat) (level : Level) (bit : Nat) :
    (withSlot word place level).getLsbD bit =
      if bit / 2 = place then decide (bit < 64) && level.code.getLsbD (bit % 2)
      else word.getLsbD bit := by
  have mask : (0b11#64).getLsbD (bit - 2 * place) = decide (bit - 2 * place < 2) := by
    rw [show 0b11#64 = (BitVec.allOnes 2).setWidth 64 from rfl, BitVec.getLsbD_setWidth,
      BitVec.getLsbD_allOnes, ← Bool.decide_and, decide_eq_decide]
    omega
  simp only [withSlot, BitVec.getLsbD_or, BitVec.getLsbD_and, BitVec.getLsbD_not,
    BitVec.getLsbD_shiftLeft, BitVec.getLsbD_setWidth, mask]
  by_cases inSlot : bit / 2 = place
  · have offset : bit - 2 * place = bit % 2 := by omega
    have reached : ¬bit < 2 * place := by omega
    have small : bit % 2 < 2 := Nat.mod_lt _ (by decide)
    have narrow : bit % 2 < 64 := by omega
    simp [inSlot, offset, reached, small, narrow]
  · rw [if_neg inSlot]
    by_cases inside : bit < 64
    · by_cases below : bit < 2 * place
      · simp [inside, below]
      · have beyond : 2 ≤ bit - 2 * place := by omega
        have none : level.code.getLsbD (bit - 2 * place) = false := BitVec.getLsbD_of_ge _ _ beyond
        simp [inside, Nat.not_lt_of_le beyond, none]
    · have none : word.getLsbD bit = false := BitVec.getLsbD_of_ge _ _ (Nat.le_of_not_lt inside)
      simp [inside, none]

theorem slot_withSlot {place place' : Nat} (inside : place < 32) (word : BitVec 64)
    (level : Level) :
    slot (withSlot word place level) place' =
      if place' = place then level else slot word place' := by
  have bits : ∀ bit < 2, (slot (withSlot word place level) place').code.getLsbD bit =
      (if place' = place then level else slot word place').code.getLsbD bit := by
    intro bit small
    simp only [code_slot, BitVec.getLsbD_extractLsb', small, getLsbD_withSlot]
    have same : (2 * place' + bit) / 2 = place' := by omega
    have rest : (2 * place' + bit) % 2 = bit := by omega
    rw [same, rest]
    by_cases written : place' = place
    · simp [written]
      omega
    · simp [written, code_slot, small]
  have codes := BitVec.eq_of_getLsbD_eq bits
  rw [← Level.ofCode_code (slot _ _), codes, Level.ofCode_code]

/-- A word is told by its slots. -/
theorem word_ext (same : ∀ place < 32, slot word place = slot word' place) : word = word' := by
  apply BitVec.eq_of_getLsbD_eq
  intro bit inside
  have codes := congrArg (fun level : Level => level.code.getLsbD (bit % 2))
    (same (bit / 2) (by omega))
  have small : bit % 2 < 2 := Nat.mod_lt _ (by decide)
  simpa only [code_slot, BitVec.getLsbD_extractLsb', small, decide_true, Bool.true_and,
    Nat.div_add_mod] using codes

theorem level_zeros (width index : Nat) : (zeros width).level index = .zero := by
  have word : (zeros width).words.getD (index / levelsPerWord) 0 = 0 := by
    simp only [zeros, Array.getD_eq_getD_getElem?, Array.getElem?_replicate]
    split <;> rfl
  rw [Bits.level, word, slot]
  simp [Level.ofCode]

@[simp] theorem width_withLevel (bits : Bits) (index : Nat) (level : Level) :
    (bits.withLevel index level).width = bits.width := rfl

@[simp] theorem size_withLevel (bits : Bits) (index : Nat) (level : Level) :
    (bits.withLevel index level).words.size = bits.words.size :=
  Array.size_modify ..

/-- A write to an index whose word is there changes the level at that index alone. -/
theorem level_withLevel (stored : index / levelsPerWord < bits.words.size) (level : Level)
    (place : Nat) :
    (bits.withLevel index level).level place =
      if place = index then level else bits.level place := by
  have inside : index % levelsPerWord < 32 := Nat.mod_lt _ (by decide)
  simp only [Bits.level, withLevel, Array.getD_eq_getD_getElem?, Array.getElem?_modify]
  by_cases sameWord : index / levelsPerWord = place / levelsPerWord
  · rw [if_pos sameWord, ← sameWord, Array.getElem?_eq_getElem stored, Option.map_some,
      Option.getD_some, Option.getD_some, slot_withSlot inside]
    have sameSlot : place % levelsPerWord = index % levelsPerWord ↔ place = index := by
      unfold levelsPerWord at sameWord ⊢
      omega
    simp only [sameSlot]
  · have apart : place ≠ index := fun same => sameWord (same ▸ rfl)
    rw [if_neg sameWord, if_neg apart]

/-- The words are those that the width asks for, and no level beyond the width is written. -/
structure Canonical (bits : Bits) : Prop where
  size : bits.words.size = wordCount bits.width
  beyond : ∀ index, bits.width ≤ index → bits.level index = .zero

theorem Canonical.stored (canonical : bits.Canonical) (inside : index < bits.width) :
    index / levelsPerWord < bits.words.size := by
  rw [canonical.size, wordCount]
  unfold levelsPerWord
  omega

/-- Canonical vectors of one width and with the same levels are the same words. -/
theorem Canonical.ext (canonical : bits.Canonical) (canonical' : other.Canonical)
    (widths : bits.width = other.width)
    (levels : ∀ index < bits.width, bits.level index = other.level index) : bits = other := by
  have all : ∀ index, bits.level index = other.level index := by
    intro index
    by_cases inside : index < bits.width
    · exact levels index inside
    · rw [canonical.beyond index (Nat.le_of_not_lt inside),
        canonical'.beyond index (widths ▸ Nat.le_of_not_lt inside)]
  have words : bits.words = other.words := by
    apply Array.ext
    · rw [canonical.size, canonical'.size, widths]
    · intro index stored stored'
      apply word_ext
      intro place small
      -- The slot is read through its index in the vector.
      have same := all (levelsPerWord * index + place)
      have word : (levelsPerWord * index + place) / levelsPerWord = index := by
        unfold levelsPerWord
        omega
      have inWord : (levelsPerWord * index + place) % levelsPerWord = place := by
        unfold levelsPerWord
        omega
      simpa only [Bits.level, word, inWord, Array.getD_eq_getD_getElem?,
        Array.getElem?_eq_getElem stored, Array.getElem?_eq_getElem stored',
        Option.getD_some] using same
  cases bits
  cases other
  simp_all

theorem canonical_zeros (width : Nat) : (zeros width).Canonical where
  size := Array.size_replicate
  beyond := fun index _ => level_zeros width index

theorem Canonical.withLevel (canonical : bits.Canonical) (inside : index < bits.width)
    (level : Level) : (bits.withLevel index level).Canonical where
  size := by rw [size_withLevel, width_withLevel, canonical.size]
  beyond := by
    intro place outside
    rw [width_withLevel] at outside
    rw [level_withLevel (canonical.stored inside), if_neg (by omega),
      canonical.beyond place outside]

/-- Writes levels at consecutive indexes. -/
def writeFrom (bits : Bits) : List Level → Nat → Bits
  | [], _ => bits
  | level :: rest, start => (bits.withLevel start level).writeFrom rest (start + 1)

theorem foldl_withLevel (bits : Bits) (levels : List Level) (start : Nat) :
    (levels.zipIdx start).foldl (fun bits (level, index) => bits.withLevel index level) bits =
      bits.writeFrom levels start := by
  induction levels generalizing bits start with
  | nil => rfl
  | cons level rest ih => exact ih _ _

theorem ofLevels_eq_writeFrom (levels : List Level) :
    ofLevels levels = (zeros levels.length).writeFrom levels 0 :=
  foldl_withLevel _ levels 0

@[simp] theorem width_writeFrom (bits : Bits) (levels : List Level) (start : Nat) :
    (bits.writeFrom levels start).width = bits.width := by
  induction levels generalizing bits start with
  | nil => rfl
  | cons level rest ih => rw [writeFrom, ih, width_withLevel]

theorem Canonical.writeFrom {levels : List Level} {start : Nat} (canonical : bits.Canonical)
    (fits : start + levels.length ≤ bits.width) : (bits.writeFrom levels start).Canonical := by
  induction levels generalizing bits start with
  | nil => exact canonical
  | cons level rest ih =>
    rw [List.length_cons] at fits
    exact ih (canonical.withLevel (by omega) level) (by rw [width_withLevel]; omega)

/-- The levels at the written indexes are the new ones, and the others stay. -/
theorem Canonical.level_writeFrom {levels : List Level} {start : Nat} (canonical : bits.Canonical)
    (fits : start + levels.length ≤ bits.width) (place : Nat) :
    (bits.writeFrom levels start).level place =
      if place < start then bits.level place
      else levels[place - start]?.getD (bits.level place) := by
  induction levels generalizing bits start with
  | nil => simp [Bits.writeFrom]
  | cons level rest ih =>
    rw [List.length_cons] at fits
    have inside : start < bits.width := by omega
    rw [Bits.writeFrom, ih (canonical.withLevel inside level) (by rw [width_withLevel]; omega),
      level_withLevel (canonical.stored inside)]
    rcases Nat.lt_trichotomy place start with below | here | above
    · rw [if_pos (by omega), if_neg (by omega), if_pos below]
    · subst here
      simp
    · obtain ⟨next, rfl⟩ := Nat.exists_eq_add_of_lt above
      rw [if_neg (by omega), if_neg (by omega), if_neg (by omega),
        show start + next + 1 - (start + 1) = next by omega,
        show start + next + 1 - start = next + 1 by omega, List.getElem?_cons_succ]

variable {levels : List Level}

@[simp] theorem width_ofLevels (levels : List Level) : (ofLevels levels).width = levels.length := by
  rw [ofLevels_eq_writeFrom, width_writeFrom]
  rfl

theorem canonical_ofLevels (levels : List Level) : (ofLevels levels).Canonical := by
  rw [ofLevels_eq_writeFrom]
  exact (canonical_zeros _).writeFrom (Nat.le_of_eq (Nat.zero_add _))

theorem level_ofLevels (inside : index < levels.length) :
    (ofLevels levels).level index = levels[index] := by
  rw [ofLevels_eq_writeFrom,
    (canonical_zeros _).level_writeFrom (Nat.le_of_eq (Nat.zero_add _)), if_neg (Nat.not_lt_zero _),
    Nat.sub_zero, List.getElem?_eq_getElem inside, Option.getD_some]

@[simp] theorem length_levels (bits : Bits) : bits.levels.length = bits.width := by
  rw [Bits.levels, List.length_map, List.length_range]

theorem getElem_levels (inside : index < bits.levels.length) :
    bits.levels[index] = bits.level index := by
  simp only [Bits.levels, List.getElem_map, List.getElem_range]

theorem levels_ofLevels (levels : List Level) : (ofLevels levels).levels = levels := by
  apply List.ext_getElem
  · rw [length_levels, width_ofLevels]
  · intro index inside inside'
    rw [getElem_levels, level_ofLevels inside']

/-- A canonical vector is the one that holds its levels. -/
theorem Canonical.ofLevels_levels (canonical : bits.Canonical) : ofLevels bits.levels = bits := by
  apply (canonical_ofLevels _).ext canonical (by rw [width_ofLevels, length_levels])
  intro index inside
  rw [width_ofLevels] at inside
  rw [level_ofLevels inside, getElem_levels]

/-- The vectors made of zeros, of numbers and of texts by writes below the width. -/
inductive Built : Bits → Prop where
  | zeros (width : UInt32) : Built (.zeros width.toNat)
  | ofNat (value : UInt64) (width : UInt32) : Built (.ofNat value.toNat width.toNat)
  | parsed {text : String} {bits : Bits} (read : parse? text = some bits) : Built bits
  | set {before bits : Bits} {index : Nat} {level : Level} (built : Built before)
      (written : before.set index level = .ok bits) : Built bits

/-- The conditional writes of a number stay below the width. -/
theorem ofNat_induction {motive : Bits → Prop} (value width : Nat) (start : motive (zeros width))
    (write : ∀ bits index, index < width → motive bits → motive (bits.withLevel index .one)) :
    motive (ofNat value width) := by
  apply List.foldlRecOn _ _ start
  intro bits holds index member
  rw [List.mem_range] at member
  split
  · exact write bits index (by omega) holds
  · exact holds

@[simp] theorem width_ofNat (value width : Nat) : (ofNat value width).width = width :=
  ofNat_induction (motive := fun bits => bits.width = width) value width rfl fun _ _ _ holds => holds

theorem canonical_ofNat (value width : Nat) : (ofNat value width).Canonical := by
  have both := ofNat_induction (motive := fun bits => bits.width = width ∧ bits.Canonical) value
    width ⟨rfl, canonical_zeros width⟩ fun bits index inside holds =>
      ⟨holds.1, holds.2.withLevel (holds.1 ▸ inside) .one⟩
  exact both.2

theorem set_eq_ok : bits.set index level = .ok other ↔
    index < bits.width ∧ other = bits.withLevel index level := by
  by_cases inside : index < bits.width
  · simp [Bits.set, inside, eq_comm]
  · simp [Bits.set, inside]

theorem parse?_eq_some {text : String} : parse? text = some bits ↔
    text.length < UInt32.size ∧
      ∃ levels, text.toList.mapM Level.ofChar? = some levels ∧ ofLevels levels.reverse = bits := by
  by_cases short : text.length < UInt32.size
  · rw [parse?, if_pos short]
    simp only [short, true_and, Option.map_eq_some_iff]
  · rw [parse?, if_neg short]
    simp only [short, false_and, reduceCtorEq]

theorem Built.canonical (built : bits.Built) : bits.Canonical := by
  induction built with
  | zeros width => exact canonical_zeros _
  | ofNat value width => exact canonical_ofNat _ _
  | parsed read =>
    obtain ⟨_, levels, _, rfl⟩ := parse?_eq_some.mp read
    exact canonical_ofLevels _
  | set _ written ih =>
    obtain ⟨inside, rfl⟩ := set_eq_ok.mp written
    exact ih.withLevel inside _

end NetSynth.Bits
