import Mathlib.Data.List.TakeWhile
import NetSynth.Source.Library

/-! Rows of a text, the number of bytes before each of them, and the row and column of a byte. -/
namespace NetSynth

theorem isDigit_of_mem_repr {number : Nat} {char : Char} (member : char ∈ number.repr.toList) :
    char.isDigit = true := by
  rw [Nat.repr_eq_ofList_toDigits, String.toList_ofList] at member
  exact Nat.isDigit_of_mem_toDigits (by decide) (by decide) member

theorem repr_injective {number number' : Nat} (same : number.repr = number'.repr) :
    number = number' := by
  rw [Nat.repr_eq_ofList_toDigits, Nat.repr_eq_ofList_toDigits, String.ofList_inj] at same
  have read := congrArg (Nat.ofDigitChars 10 · 0) same
  simpa using read

theorem utf8Size_of_isDigit {char : Char} (digit : char.isDigit = true) : char.utf8Size = 1 := by
  simp only [Char.isDigit, Bool.and_eq_true, decide_eq_true_eq] at digit
  exact Char.utf8Size_eq_one_iff.mpr (UInt32.le_trans digit.2 (by decide))

namespace Rows

variable {text row : List Char} {rows : List (List Char)} {letter : Char} {place : Nat}

@[simp] theorem byteCount_nil : byteCount [] = 0 := rfl

@[simp] theorem byteCount_cons (letter : Char) (row : List Char) :
    byteCount (letter :: row) = letter.utf8Size + byteCount row := rfl

theorem byteCount_append (first second : List Char) :
    byteCount (first ++ second) = byteCount first + byteCount second := by
  induction first with
  | nil => simp
  | cons letter rest ih => rw [List.cons_append, byteCount_cons, ih, byteCount_cons, Nat.add_assoc]

theorem byteCount_eq_length (single : ∀ letter ∈ row, letter.utf8Size = 1) :
    byteCount row = row.length := by
  induction row with
  | nil => rfl
  | cons letter rest ih =>
    rw [List.forall_mem_cons] at single
    rw [byteCount_cons, single.1, ih single.2, List.length_cons, Nat.add_comm]

theorem split_ne_nil (text : List Char) : split text ≠ [] := by
  cases text with
  | nil => simp [split]
  | cons letter rest =>
    rw [split, List.foldr_cons]
    split <;> simp

theorem split_cons (other : letter ≠ '\n') (known : split text = row :: rows) :
    split (letter :: text) = (letter :: row) :: rows := by
  rw [split, List.foldr_cons, ← split, known]
  split
  · contradiction
  · simp_all
  · simp_all

/-- The rows of a text and their line feeds are the text. -/
theorem intercalate_split (text : List Char) : List.intercalate ['\n'] (split text) = text := by
  induction text with
  | nil => rfl
  | cons letter rest ih =>
    obtain ⟨row, rows, known⟩ := List.exists_cons_of_ne_nil (split_ne_nil rest)
    by_cases feed : letter = '\n'
    · subst feed
      rw [show split ('\n' :: rest) = [] :: split rest from rfl, known,
        List.intercalate_cons_cons, ← known, ih]
      rfl
    · rw [split_cons feed known]
      rw [known] at ih
      cases rows <;> simp_all [List.intercalate]

theorem length_split (text : List Char) : (split text).length = text.count '\n' + 1 := by
  induction text with
  | nil => rfl
  | cons letter rest ih =>
    by_cases feed : letter = '\n'
    · subst feed
      rw [show split ('\n' :: rest) = [] :: split rest from rfl, List.length_cons, ih,
        List.count_cons_self]
    · obtain ⟨row, rows, known⟩ := List.exists_cons_of_ne_nil (split_ne_nil rest)
      rw [split_cons feed known, List.count_cons_of_ne feed, ← ih, known]
      rfl

theorem mem_of_mem_split (member : row ∈ split text) (inRow : letter ∈ row) : letter ∈ text := by
  rw [← intercalate_split text]
  generalize split text = rows at member
  induction rows with
  | nil => cases member
  | cons first rest ih =>
    cases rest with
    | nil => simp_all
    | cons next rest =>
      rw [List.intercalate_cons_cons, List.append_assoc, List.mem_append, List.mem_append]
      rcases List.mem_cons.mp member with rfl | member
      · exact .inl inRow
      · exact .inr (.inr (ih member))

/-- What has no line feed in it goes in front of the first row. -/
theorem split_append_of_notMem {start : List Char} (plain : '\n' ∉ start)
    (known : split text = row :: rows) : split (start ++ text) = (start ++ row) :: rows := by
  induction start with
  | nil => exact known
  | cons letter rest ih =>
    rw [List.mem_cons, not_or] at plain
    exact split_cons (Ne.symm plain.1) (ih plain.2)

theorem split_append_feed (first second : List Char) :
    split (first ++ '\n' :: second) = split first ++ split second := by
  induction first with
  | nil => rfl
  | cons letter rest ih =>
    by_cases feed : letter = '\n'
    · subst feed
      rw [List.cons_append, show split ('\n' :: (rest ++ '\n' :: second)) =
        [] :: split (rest ++ '\n' :: second) from rfl, ih]
      rfl
    · obtain ⟨row, rows, known⟩ := List.exists_cons_of_ne_nil (split_ne_nil rest)
      rw [known, List.cons_append] at ih
      rw [List.cons_append, split_cons feed ih, split_cons feed known, List.cons_append]

/-- Two rows one below the other, in front of more text. -/
theorem split_append_two {above first second : List Char} (plain : '\n' ∉ first)
    (plain' : '\n' ∉ second) (known : split text = row :: rows) :
    split (above ++ '\n' :: (first ++ '\n' :: (second ++ text))) =
      split above ++ first :: (second ++ row) :: rows := by
  have single := split_append_of_notMem plain (show split [] = [[]] from rfl)
  rw [List.append_nil] at single
  rw [split_append_feed, split_append_feed, single, split_append_of_notMem plain' known]
  rfl

theorem head?_text (known : split text = row :: rows) (first : row.head? = some letter) :
    text.head? = some letter := by
  cases text with
  | nil =>
    obtain ⟨rfl, _⟩ := List.cons.inj known
    exact first
  | cons start rest =>
    by_cases feed : start = '\n'
    · subst feed
      obtain ⟨rfl, _⟩ := List.cons.inj known
      cases first
    · obtain ⟨tail, rows', known'⟩ := List.exists_cons_of_ne_nil (split_ne_nil rest)
      rw [split_cons feed known'] at known
      obtain ⟨rfl, _⟩ := List.cons.inj known
      exact first

theorem feed_notMem_of_mem_split (member : row ∈ split text) : '\n' ∉ row := by
  induction text generalizing row with
  | nil => simp_all [split]
  | cons letter rest ih =>
    by_cases feed : letter = '\n'
    · subst feed
      rw [show split ('\n' :: rest) = [] :: split rest from rfl] at member
      rcases List.mem_cons.mp member with rfl | later
      · exact List.not_mem_nil
      · exact ih later
    · obtain ⟨first, rows, known⟩ := List.exists_cons_of_ne_nil (split_ne_nil rest)
      rw [split_cons feed known] at member
      rw [known] at ih
      rcases List.mem_cons.mp member with rfl | later
      · rw [List.mem_cons, not_or]
        exact ⟨Ne.symm feed, ih List.mem_cons_self⟩
      · exact ih (List.mem_cons_of_mem _ later)

theorem trimmed_of_notMem (none : '\r' ∉ row) : trimmed row = row := by
  have kept : row.reverse.dropWhile (· == '\r') = row.reverse := by
    rw [List.dropWhile_eq_self_iff]
    intro inside first
    exact none (List.mem_reverse.mp (beq_iff_eq.mp first ▸ List.getElem_mem inside))
  rw [trimmed, kept, List.reverse_reverse]

/-- The number of bytes before a row. Each earlier row has its line feed. -/
def before : List (List Char) → Nat → Nat
  | row :: rest, place + 1 => byteCount row + 1 + before rest place
  | _, _ => 0

theorem before_succ (known : rows[place]? = some row) :
    before rows (place + 1) = before rows place + byteCount row + 1 := by
  induction rows generalizing place with
  | nil => simp at known
  | cons first rest ih =>
    cases place with
    | zero =>
      obtain rfl := Option.some.inj known
      cases rest <;> simp [before]
    | succ place =>
      rw [before, ih known, before]
      omega

theorem before_mono {place' : Nat} (le : place ≤ place') :
    before rows place ≤ before rows place' := by
  have step : ∀ {rows : List (List Char)} {place : Nat},
      before rows place ≤ before rows (place + 1) := by
    intro rows
    induction rows with
    | nil => simp [before]
    | cons row rest ih =>
      rintro (_ | place)
      · exact Nat.zero_le _
      · rw [before, before]
        exact Nat.add_le_add_left ih _
  induction le with
  | refl => exact Nat.le_refl _
  | step _ ih => exact Nat.le_trans ih step

theorem before_lt {place' : Nat} (inside : place < rows.length) (lt : place < place') :
    before rows place < before rows place' := by
  have next := before_succ (List.getElem?_eq_getElem inside)
  have mono : before rows (place + 1) ≤ before rows place' := before_mono lt
  omega

/-- A row stands in the text after the bytes that are before it, between line feeds or the ends. -/
theorem exists_parts (known : rows[place]? = some row) : ∃ first last,
    List.intercalate ['\n'] rows = first ++ (row ++ last) ∧ byteCount first = before rows place ∧
      (first = [] ∨ ∃ rest, first = rest ++ ['\n']) ∧ (last = [] ∨ ∃ rest, last = '\n' :: rest) := by
  induction rows generalizing place with
  | nil => simp at known
  | cons head rest ih =>
    cases place with
    | zero =>
      obtain rfl := Option.some.inj known
      cases rest with
      | nil => exact ⟨[], [], by simp, by simp [before], .inl rfl, .inl rfl⟩
      | cons next rest =>
        rw [List.intercalate_cons_cons, List.append_assoc]
        exact ⟨[], _, rfl, by simp [before], .inl rfl, .inr ⟨_, rfl⟩⟩
    | succ place =>
      obtain ⟨first, last, same, count, starts, stops⟩ := ih known
      have more : rest ≠ [] := by
        rintro rfl
        simp at known
      refine ⟨head ++ ['\n'] ++ first, last, ?_, ?_, ?_, stops⟩
      · rw [List.intercalate_cons_of_ne_nil more, same]
        simp
      · rw [byteCount_append, byteCount_append, count, before, show byteCount ['\n'] = 1 by decide]
      · rcases starts with rfl | ⟨earlier, rfl⟩
        · exact .inr ⟨head, by simp⟩
        · exact .inr ⟨head ++ ['\n'] ++ earlier, by simp⟩

theorem before_length (nonempty : rows ≠ []) :
    before rows rows.length = byteCount (List.intercalate ['\n'] rows) + 1 := by
  induction rows with
  | nil => contradiction
  | cons row rest ih =>
    cases rest with
    | nil => simp [before]
    | cons next rest =>
      rw [List.intercalate_cons_cons, byteCount_append, byteCount_append, List.length_cons, before,
        ih (List.cons_ne_nil _ _), show byteCount ['\n'] = 1 by decide]
      omega

theorem le_before (inside : place ≤ rows.length) : place ≤ before rows place := by
  induction place with
  | zero => exact Nat.zero_le _
  | succ place ih =>
    have earlier := ih (Nat.le_of_succ_le inside)
    rw [before_succ (List.getElem?_eq_getElem inside)]
    omega

/-- The byte lies in the row, on the line feed after it, or past it if the row is the last. -/
structure Locates (rows : List (List Char)) (offset place : Nat) : Prop where
  inside : place < rows.length
  start : before rows place ≤ offset
  stop : place + 1 < rows.length → offset < before rows (place + 1)

theorem exists_locates (nonempty : rows ≠ []) (line offset : Nat) : ∃ place,
    Locates rows offset place ∧
      position rows line offset = ⟨line + place, offset - before rows place + 1⟩ := by
  fun_induction position rows line offset with
  | case1 row next rest line offset short =>
    exact ⟨0, ⟨by simp, Nat.zero_le _, fun _ => Nat.lt_succ_of_le short⟩, rfl⟩
  | case2 row next rest line offset long ih =>
    obtain ⟨place, located, same⟩ := ih (List.cons_ne_nil _ _)
    refine ⟨place + 1, ⟨?_, ?_, ?_⟩, ?_⟩
    · simpa using located.inside
    · have := located.start
      rw [before]
      omega
    · intro more
      have := located.stop (by simpa using more)
      rw [before]
      omega
    · rw [same, before]
      congr 1
      all_goals omega
  | case3 rows line offset short =>
    obtain ⟨row, rest, rfl⟩ := List.exists_cons_of_ne_nil nonempty
    cases rest with
    | nil => exact ⟨0, ⟨by simp, Nat.zero_le _, fun more => by simp at more⟩, rfl⟩
    | cons next rest => exact absurd rfl (short row next rest)

/-- A byte of a text comes before the end of its row, or lies on the line feed after it. -/
theorem Locates.lt_before_succ {offset : Nat} (located : Locates (split text) offset place)
    (inText : offset ≤ byteCount text) : offset < before (split text) (place + 1) := by
  by_cases more : place + 1 < (split text).length
  · exact located.stop more
  · have last : place + 1 = (split text).length :=
      Nat.le_antisymm located.inside (Nat.le_of_not_lt more)
    rw [last, before_length (split_ne_nil text), intercalate_split]
    exact Nat.lt_succ_of_le inText

theorem Locates.place_le {offset offset' place' : Nat} (located : Locates rows offset place)
    (located' : Locates rows offset' place') (le : offset ≤ offset') : place ≤ place' := by
  by_contra earlier
  have stop := located'.stop (Nat.lt_of_le_of_lt (Nat.lt_of_not_le earlier) located.inside)
  have mono : before rows (place' + 1) ≤ before rows place := before_mono (Nat.lt_of_not_le earlier)
  have start := located.start
  omega

/-- A later byte lies in the same row as long as it comes before the next one. -/
theorem Locates.place_eq_iff {offset offset' place' : Nat}
    (located : Locates (split text) offset place) (located' : Locates (split text) offset' place')
    (le : offset ≤ offset') (inText : offset' ≤ byteCount text) :
    place' = place ↔ offset' < before (split text) (place + 1) := by
  constructor
  · rintro rfl
    exact located'.lt_before_succ inText
  · intro onRow
    by_contra other
    have later := Nat.lt_of_le_of_ne (located.place_le located' le) (Ne.symm other)
    have mono : before (split text) (place + 1) ≤ before (split text) place' := before_mono later
    have start := located'.start
    omega

end Rows

end NetSynth
