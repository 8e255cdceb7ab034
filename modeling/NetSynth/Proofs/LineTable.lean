import Mathlib.Algebra.Group.Nat.Defs
import NetSynth.Proofs.TextRows

/-! The table of line starts of a text. It is made from the bytes of the text. Positions are found
in it by binary search, and lines are cut out of the text between its entries. Numbers have 32 bits.
Where a sum, a difference, an index or a cut fails there is no result; it turns out that none of
them ever does, as long as 32 bits hold the length of the text. -/
namespace NetSynth

namespace LineTable

def bytes (text : List Char) : List UInt8 := text.flatMap String.utf8EncodeChar

def minus? (a b : Nat) : Option Nat := if b ≤ a then some (a - b) else none

def plus? (a b : Nat) : Option Nat := if a + b < 2 ^ 32 then some (a + b) else none

/-- Zero, and the offset after each byte of a line feed. -/
def starts (text : List Char) : List Nat :=
  0 :: ((bytes text).zipIdx.filter (·.1 == 10)).map (·.2 + 1)

/-- The same table in 32 bits. Offsets are cut to them before they are added to. -/
def starts? (text : List Char) : Option (List Nat) := do
  let feeds := (bytes text).zipIdx.filter (·.1 == 10)
  return 0 :: (← feeds.mapM fun feed => plus? (feed.2 % 2 ^ 32) 1)

/-- What a binary search finds in an ascending list: the place of the offset, or the place at which
it would stand. -/
def search (starts : List Nat) (offset : Nat) : Except Nat Nat :=
  match starts.idxOf? offset with
  | some place => .ok place
  | none => .error (starts.findIdx (offset < ·))

/-- The line that an offset starts, or the one before the place at which it would stand. -/
def line? (starts : List Nat) (offset : Nat) : Option Nat :=
  match search starts offset with
  | .ok place => some place
  | .error place => minus? place 1

def position? (text : List Char) (offset : Nat) : Option Position := do
  let starts ← starts? text
  let line ← line? starts offset
  let start ← starts[line]?
  let column ← minus? offset start
  return ⟨← plus? (line % 2 ^ 32) 1, ← plus? column 1⟩

/-- The text from a byte on. There is none past the end and none from inside of a character. -/
def skip? : List Char → Nat → Option (List Char)
  | text, 0 => some text
  | [], _ + 1 => none
  | letter :: rest, count + 1 => (minus? (count + 1) letter.utf8Size).bind (skip? rest)

/-- The text up to a byte, under the same conditions. -/
def take? : List Char → Nat → Option (List Char)
  | _, 0 => some []
  | [], _ + 1 => none
  | letter :: rest, count + 1 =>
      ((minus? (count + 1) letter.utf8Size).bind (take? rest)).map (letter :: ·)

def cut? (text : List Char) (start stop : Nat) : Option (List Char) := do
  take? (← skip? text start) (← minus? stop start)

/-- The offset at which a line ends: one less than the start of the next one, or the end. -/
def stop? (text : List Char) (starts : List Nat) (place : Nat) : Option Nat :=
  match starts[place + 1]? with
  | some next => minus? next 1
  | none => some (bytes text).length

/-- A line without its end, and nothing for a line that the table does not have. -/
def lineText? (text : List Char) (line : Nat) : Option (List Char) := do
  let starts ← starts? text
  match starts[line - 1]? with
  | none => return []
  | some start => return Rows.trimmed (← cut? text start (← stop? text starts (line - 1)))

open Rows (byteCount before split Locates)

variable {text rows : List Char} {offset place : Nat}

theorem length_bytes (text : List Char) : (bytes text).length = byteCount text := by
  induction text with
  | nil => rfl
  | cons letter rest ih =>
    rw [bytes, List.flatMap_cons, List.length_append, String.length_utf8EncodeChar,
      Rows.byteCount_cons, ← ih, bytes]

@[simp] theorem bytes_append (first second : List Char) :
    bytes (first ++ second) = bytes first ++ bytes second := List.flatMap_append

/-- The encoding of a letter has a byte below 128 in it only if the letter is that byte. In an
encoding of several bytes each is above 127. -/
theorem notMem_utf8EncodeChar (ascii : Char) {letter : Char} (low : ascii.val.toNat < 128)
    (other : letter ≠ ascii) : UInt8.ofNat ascii.val.toNat ∉ String.utf8EncodeChar letter := by
  have same {number : Nat} (equal : UInt8.ofNat ascii.val.toNat = UInt8.ofNat number) :
      number % 256 = ascii.val.toNat := by
    have := congrArg UInt8.toNat equal
    simp only [UInt8.toNat_ofNat'] at this
    omega
  have high {number : Nat} (above : 127 < number % 256) :
      UInt8.ofNat ascii.val.toNat ≠ UInt8.ofNat number :=
    fun equal => by have := same equal; omega
  intro member
  rw [String.utf8EncodeChar] at member
  split at member
  · rename_i short
    have exact := same (List.mem_singleton.mp member)
    exact other (Char.ext (UInt32.toNat_inj.mp (by omega)))
  · revert member
    split
    · simp only [List.mem_cons, List.not_mem_nil, or_false]
      rintro (same | same) <;> exact high (by omega) same
    · split
      · simp only [List.mem_cons, List.not_mem_nil, or_false]
        rintro (same | same | same) <;> exact high (by omega) same
      · simp only [List.mem_cons, List.not_mem_nil, or_false]
        rintro (same | same | same | same) <;> exact high (by omega) same

theorem feed_notMem {letter : Char} (other : letter ≠ '\n') : 10 ∉ String.utf8EncodeChar letter :=
  notMem_utf8EncodeChar '\n' (by decide) other

theorem bytes_toByteArray (text : String) : (bytes text.toList).toByteArray = text.toByteArray := by
  rw [← String.utf8Encode_toList]
  rfl

theorem feeds_eq (text : List Char) (start : Nat) :
    start :: (((bytes text).zipIdx start).filter (·.1 == 10)).map (·.2 + 1) =
      (List.range (split text).length).map fun place => start + before (split text) place := by
  induction text generalizing start with
  | nil => rfl
  | cons letter rest ih =>
    obtain ⟨row, rows, known⟩ := List.exists_cons_of_ne_nil (Rows.split_ne_nil rest)
    by_cases feed : letter = '\n'
    · subst feed
      have encoded : bytes ('\n' :: rest) = 10 :: bytes rest := rfl
      rw [encoded, List.zipIdx_cons, List.filter_cons_of_pos rfl, List.map_cons, ih,
        show split ('\n' :: rest) = [] :: split rest from rfl, List.length_cons,
        List.range_succ_eq_map, List.map_cons, List.map_map]
      congr 1
      apply List.map_congr_left
      intro place _
      simp only [Function.comp_apply, before, Rows.byteCount_nil]
      omega
    · have encoded : bytes (letter :: rest) = String.utf8EncodeChar letter ++ bytes rest := rfl
      have none : ((String.utf8EncodeChar letter).zipIdx start).filter (·.1 == 10) = [] := by
        rw [List.filter_eq_nil_iff]
        intro entry member same
        exact feed_notMem feed (beq_iff_eq.mp same ▸ List.fst_mem_of_mem_zipIdx member)
      have later := ih (start + letter.utf8Size)
      rw [known, List.length_cons, List.range_succ_eq_map, List.map_cons, List.cons.injEq] at later
      rw [encoded, List.zipIdx_append, List.filter_append, none, List.nil_append,
        String.length_utf8EncodeChar, later.2, Rows.split_cons feed known, List.length_cons,
        List.range_succ_eq_map, List.map_cons, List.map_map, List.map_map]
      congr 1
      apply List.map_congr_left
      intro place _
      simp only [Function.comp_apply, before, Rows.byteCount_cons]
      omega

theorem starts_eq (text : List Char) :
    starts text = (List.range (split text).length).map (before (split text)) := by
  rw [starts, feeds_eq text 0]
  simp only [Nat.zero_add]

theorem getElem?_starts (text : List Char) (place : Nat) : (starts text)[place]? =
    if place < (split text).length then some (before (split text) place) else none := by
  rw [starts_eq, List.getElem?_map]
  by_cases inside : place < (split text).length
  · rw [List.getElem?_range inside, if_pos inside, Option.map_some]
  · rw [List.getElem?_eq_none (by simpa using inside), if_neg inside, Option.map_none]

/-- Offsets of 32 bits are neither cut nor passed over. -/
theorem starts?_eq (short : byteCount text < 2 ^ 32) : starts? text = some (starts text) := by
  have summed : ∀ feeds : List (UInt8 × Nat), (∀ feed ∈ feeds, feed.2 + 1 < 2 ^ 32) →
      feeds.mapM (fun feed => plus? (feed.2 % 2 ^ 32) 1) = some (feeds.map (·.2 + 1)) := by
    intro feeds
    induction feeds with
    | nil => intro _; rfl
    | cons feed rest ih =>
      intro below
      have low := below feed List.mem_cons_self
      rw [List.mapM_cons, ih fun later member => below later (List.mem_cons_of_mem _ member),
        Nat.mod_eq_of_lt (Nat.lt_of_succ_lt low), plus?, if_pos low]
      rfl
  rw [starts?, summed]
  · rfl
  · intro feed member
    have lt := List.snd_lt_of_mem_zipIdx (List.mem_filter.mp member).1
    rw [length_bytes] at lt
    omega

/-- The first row that starts after an offset is the one after its own. -/
theorem findIdx_starts (located : Locates (split text) offset place) :
    (starts text).findIdx (offset < ·) = place + 1 := by
  have low : ∀ earlier, earlier < place + 1 → ¬offset < before (split text) earlier := by
    intro earlier le
    have mono : before (split text) earlier ≤ before (split text) place :=
      Rows.before_mono (Nat.le_of_lt_succ le)
    exact Nat.not_lt_of_le (Nat.le_trans mono located.start)
  rw [starts_eq, List.findIdx_map]
  by_cases more : place + 1 < (split text).length
  · rw [List.findIdx_eq (by simpa using more)]
    constructor
    · simpa using located.stop more
    · intro earlier le
      simpa using low earlier le
  · have last : place + 1 = (split text).length :=
      Nat.le_antisymm located.inside (Nat.le_of_not_lt more)
    refine (List.findIdx_eq_length_of_false fun earlier member => ?_).trans
      (by rw [List.length_range, last])
    simpa using low earlier (last ▸ List.mem_range.mp member)

/-- Where the search finds the start of a row it is that row, and otherwise the one before the first
that starts later. -/
theorem line?_eq (located : Locates (split text) offset place) :
    line? (starts text) offset = some place := by
  rw [line?, search]
  cases found : (starts text).idxOf? offset with
  | some exact =>
    obtain ⟨inside, same, _⟩ := List.idxOf?_eq_some_iff.mp found
    have known := List.getElem?_eq_getElem inside
    rw [getElem?_starts, same] at known
    obtain ⟨inside, start⟩ := Option.ite_none_right_eq_some.mp known
    have start := Option.some.inj start
    have exactly : Locates (split text) offset exact :=
      ⟨inside, Nat.le_of_eq start, fun _ => start ▸ Rows.before_lt inside (Nat.lt_succ_self _)⟩
    exact congrArg some (Nat.le_antisymm (exactly.place_le located (Nat.le_refl _))
      (located.place_le exactly (Nat.le_refl _)))
  | none =>
    exact (congrArg (minus? · 1) (findIdx_starts located)).trans (by simp [minus?])

theorem position?_eq (short : byteCount text < 2 ^ 32) (near : offset < 2 ^ 32 - 1) :
    position? text offset = some (Rows.position (split text) 1 offset) := by
  obtain ⟨place, located, same⟩ := Rows.exists_locates (Rows.split_ne_nil text) 1 offset
  have line : place + 1 < 2 ^ 32 := by
    have := Rows.le_before (Nat.le_of_lt located.inside)
    have := located.start
    omega
  have column : offset - before (split text) place + 1 < 2 ^ 32 := by omega
  rw [position?, starts?_eq short, Option.bind_eq_bind, Option.bind_some,
    line?_eq located, Option.bind_eq_bind, Option.bind_some, getElem?_starts,
    if_pos located.inside, Option.bind_some, minus?, if_pos located.start, Option.bind_some,
    Nat.mod_eq_of_lt (Nat.lt_of_succ_lt line), plus?, if_pos line, Option.bind_some, plus?,
    if_pos column, same, Nat.add_comm 1 place]
  rfl

theorem skip?_cons (letter : Char) (rest : List Char) (count : Nat) :
    skip? (letter :: rest) (letter.utf8Size + count) = skip? rest count := by
  obtain ⟨total, same⟩ := Nat.exists_eq_succ_of_ne_zero
    (Nat.ne_of_gt (Nat.add_pos_left letter.utf8Size_pos count))
  rw [same, skip?, ← Nat.succ_eq_add_one, ← same, minus?, if_pos (Nat.le_add_right _ _),
    Nat.add_sub_cancel_left, Option.bind_some]

theorem take?_cons (letter : Char) (rest : List Char) (count : Nat) :
    take? (letter :: rest) (letter.utf8Size + count) = (take? rest count).map (letter :: ·) := by
  obtain ⟨total, same⟩ := Nat.exists_eq_succ_of_ne_zero
    (Nat.ne_of_gt (Nat.add_pos_left letter.utf8Size_pos count))
  rw [same, take?, ← Nat.succ_eq_add_one, ← same, minus?, if_pos (Nat.le_add_right _ _),
    Nat.add_sub_cancel_left, Option.bind_some]

theorem skip?_append (first second : List Char) :
    skip? (first ++ second) (byteCount first) = some second := by
  induction first with
  | nil => cases second <;> rfl
  | cons letter rest ih => rw [List.cons_append, Rows.byteCount_cons, skip?_cons, ih]

theorem take?_append (first second : List Char) :
    take? (first ++ second) (byteCount first) = some first := by
  induction first with
  | nil => cases second <;> rfl
  | cons letter rest ih =>
    rw [List.cons_append, Rows.byteCount_cons, take?_cons, ih, Option.map_some]

theorem cut?_row {row : List Char} (known : (split text)[place]? = some row) :
    cut? text (before (split text) place) (before (split text) place + byteCount row) =
      some row := by
  obtain ⟨first, last, same, count, _, _⟩ := Rows.exists_parts known
  rw [Rows.intercalate_split] at same
  have skipped : skip? text (byteCount first) = some (row ++ last) := by
    rw [same, skip?_append]
  rw [← count, cut?, skipped, minus?, if_pos (Nat.le_add_right _ _), Nat.add_sub_cancel_left]
  exact take?_append row last

theorem stop?_eq (inside : place < (split text).length) :
    stop? text (starts text) place =
      some (before (split text) place + byteCount (split text)[place]) := by
  have next := Rows.before_succ (List.getElem?_eq_getElem inside)
  rw [stop?, getElem?_starts]
  by_cases more : place + 1 < (split text).length
  · rw [if_pos more]
    dsimp only
    rw [next, minus?, if_pos (Nat.le_add_left _ _), Nat.add_sub_cancel]
  · have last : place + 1 = (split text).length := Nat.le_antisymm inside (Nat.le_of_not_lt more)
    have total := Rows.before_length (Rows.split_ne_nil text)
    rw [Rows.intercalate_split, ← last, next] at total
    rw [if_neg more]
    dsimp only
    rw [length_bytes, Nat.add_right_cancel total]

theorem lineText?_eq (short : byteCount text < 2 ^ 32) (line : Nat) :
    lineText? text line = some (Rows.trimmed ((split text).getD (line - 1) [])) := by
  rw [lineText?, starts?_eq short, Option.bind_eq_bind, Option.bind_some, getElem?_starts,
    List.getD_eq_getElem?_getD]
  by_cases inside : line - 1 < (split text).length
  · have known := List.getElem?_eq_getElem inside
    rw [if_pos inside, known]
    dsimp only
    rw [stop?_eq inside, Option.bind_eq_bind, Option.bind_some, cut?_row known]
    rfl
  · rw [if_neg inside, List.getElem?_eq_none (Nat.le_of_not_lt inside)]
    rfl

end LineTable

end NetSynth
