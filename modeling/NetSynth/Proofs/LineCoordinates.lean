import Mathlib.Algebra.BigOperators.Intervals
import Mathlib.Data.List.GetD
import NetSynth.Proofs.LineTable

/-! Offsets of bytes and coordinates in lines are two names of one place. -/
namespace NetSynth

def Position.Before (first second : Position) : Prop :=
  first.line < second.line ∨ first.line = second.line ∧ first.column < second.column

theorem Position.Before.ne {first second : Position} (before : first.Before second) :
    first ≠ second := by
  rintro rfl
  rcases before with lt | ⟨_, lt⟩ <;> exact Nat.lt_irrefl _ lt

namespace Rows

variable {rows : List (List Char)} {text : List Char}

/-- What is before a row are the earlier rows, each with its line feed. -/
theorem before_eq_sum {place : Nat} (inside : place ≤ rows.length) :
    before rows place = ∑ earlier ∈ Finset.range place, (byteCount (rows.getD earlier []) + 1) := by
  induction place with
  | zero => cases rows <;> rfl
  | succ place ih =>
    rw [Finset.sum_range_succ, ← ih (Nat.le_of_succ_le inside),
      before_succ (List.getElem?_eq_getElem inside), List.getD_eq_getElem _ _ inside, Nat.add_assoc]

theorem position_before (nonempty : rows ≠ []) (line : Nat) {offset offset' : Nat}
    (lt : offset < offset') :
    (position rows line offset).Before (position rows line offset') := by
  obtain ⟨place, located, same⟩ := exists_locates nonempty line offset
  obtain ⟨place', located', same'⟩ := exists_locates nonempty line offset'
  have start := located.start
  rw [same, same', Position.Before]
  rcases Nat.lt_or_eq_of_le (located.place_le located' (Nat.le_of_lt lt)) with earlier | rfl
  · exact .inl (Nat.add_lt_add_left earlier line)
  · exact .inr ⟨rfl, by dsimp only; omega⟩

end Rows

open Rows (byteCount before)

namespace SourceFile

variable {file : SourceFile}

theorem byteCount_text (file : SourceFile) :
    byteCount file.text.toList = file.text.utf8ByteSize := by
  rw [← LineTable.length_bytes, ← List.size_toByteArray, LineTable.bytes_toByteArray]
  rfl

theorem length_rows (file : SourceFile) : file.rows.length = file.text.toList.count '\n' + 1 :=
  Rows.length_split file.text.toList

theorem lineText_eq_getD (plain : '\r' ∉ file.text.toList) (line : Nat) :
    file.lineText line = file.rows.getD (line - 1) [] := by
  apply Rows.trimmed_of_notMem
  intro inRow
  rw [List.getD_eq_getElem?_getD] at inRow
  cases known : file.rows[line - 1]? with
  | none =>
    rw [known] at inRow
    exact List.not_mem_nil inRow
  | some row =>
    rw [known] at inRow
    exact plain (Rows.mem_of_mem_split (List.mem_of_getElem? known) inRow)

theorem lineText_below {line : Nat} (below : file.text.toList.count '\n' + 1 < line) :
    file.lineText line = [] := by
  rw [← length_rows] at below
  rw [lineText, List.getD_eq_getElem?_getD, List.getElem?_eq_none (Nat.le_sub_one_of_lt below)]
  rfl

/-- The lines of a text and their line feeds are the text. -/
theorem intercalate_lines (plain : '\r' ∉ file.text.toList) :
    List.intercalate ['\n'] ((List.range (file.text.toList.count '\n' + 1)).map fun line =>
      file.lineText (line + 1)) = file.text.toList := by
  have lines : ((List.range (file.text.toList.count '\n' + 1)).map fun line =>
      file.lineText (line + 1)) = file.rows := by
    apply List.ext_getElem
    · rw [List.length_map, List.length_range, length_rows]
    · intro place _ inside
      rw [List.getElem_map, List.getElem_range, lineText_eq_getD plain, Nat.add_sub_cancel,
        List.getD_eq_getElem _ _ inside]
  rw [lines]
  exact Rows.intercalate_split file.text.toList

/-- A byte of the text lies on one of the lines, at most one column past its end, and after the
earlier lines with their line feeds. -/
theorem position_sound (plain : '\r' ∉ file.text.toList) {offset : Nat}
    (inText : offset ≤ file.text.utf8ByteSize) :
    1 ≤ (file.position offset).line ∧
    (file.position offset).line ≤ file.text.toList.count '\n' + 1 ∧
    1 ≤ (file.position offset).column ∧
    (file.position offset).column ≤
      byteCount (file.lineText (file.position offset).line) + 1 ∧
    offset = ∑ line ∈ Finset.Ico 1 (file.position offset).line,
      (byteCount (file.lineText line) + 1) + ((file.position offset).column - 1) := by
  obtain ⟨place, located, same⟩ :=
    Rows.exists_locates (Rows.split_ne_nil file.text.toList) 1 offset
  have same : file.position offset = ⟨1 + place, offset - before file.rows place + 1⟩ := same
  have inside : place < file.rows.length := located.inside
  have start : before file.rows place ≤ offset := located.start
  have stop : offset < before file.rows (place + 1) :=
    located.lt_before_succ (inText.trans_eq (byteCount_text file).symm)
  have width : byteCount (file.lineText (1 + place)) = byteCount file.rows[place] := by
    rw [lineText_eq_getD plain, Nat.add_sub_cancel_left, List.getD_eq_getElem _ _ inside]
  have earlier : ∑ line ∈ Finset.Ico 1 (1 + place), (byteCount (file.lineText line) + 1) =
      before file.rows place := by
    rw [Finset.sum_Ico_eq_sum_range, Nat.add_sub_cancel_left,
      Rows.before_eq_sum (Nat.le_of_lt inside)]
    apply Finset.sum_congr rfl
    intro line _
    rw [lineText_eq_getD plain, Nat.add_sub_cancel_left]
  rw [Rows.before_succ (List.getElem?_eq_getElem inside)] at stop
  rw [length_rows] at inside
  rw [same]
  dsimp only
  rw [width, earlier]
  omega

theorem position_injective (file : SourceFile) : Function.Injective file.position := by
  intro offset offset' same
  by_contra other
  rcases Nat.lt_or_gt_of_ne other with lt | lt
  · have before := Rows.position_before (Rows.split_ne_nil file.text.toList) 1 lt
    exact before.ne same
  · have before := Rows.position_before (Rows.split_ne_nil file.text.toList) 1 lt
    exact before.ne same.symm

end SourceFile

/-- Offsets and coordinates are inverse to each other. Without carriage returns the lines of a text
and their line feeds make up the text, and a byte lies as many bytes after the start of the text as
its column and the lines above it say. Each later byte has a later position. As long as 32 bits hold
the length of the text and what comes after the offset, reading them off the table of line starts
never fails, whatever the text is made of. -/
theorem lines_and_offsets_inverse (file : SourceFile) :
    let text := file.text.toList
    let count := text.count '\n' + 1
    let width line := byteCount (file.lineText line)
    ('\r' ∉ text →
      List.intercalate ['\n'] ((List.range count).map fun line => file.lineText (line + 1)) = text ∧
      ∀ offset ≤ file.text.utf8ByteSize,
        let place := file.position offset
        1 ≤ place.line ∧ place.line ≤ count ∧
        1 ≤ place.column ∧ place.column ≤ width place.line + 1 ∧
        offset = ∑ line ∈ Finset.Ico 1 place.line, (width line + 1) + (place.column - 1)) ∧
    (∀ line, count < line → file.lineText line = []) ∧
    (∀ offset offset', offset < offset' →
      (file.position offset).Before (file.position offset')) ∧
    Function.Injective file.position ∧
    (file.text.utf8ByteSize < 2 ^ 32 →
      (∀ offset < 2 ^ 32 - 1,
        LineTable.position? text offset = some (file.position offset)) ∧
      ∀ line, LineTable.lineText? text line = some (file.lineText line)) := by
  intro text count width
  refine ⟨?_, ?_, ?_, file.position_injective, ?_⟩
  · intro plain
    exact ⟨SourceFile.intercalate_lines plain, fun offset inText =>
      SourceFile.position_sound plain inText⟩
  · intro line below
    exact SourceFile.lineText_below below
  · intro offset offset' lt
    exact Rows.position_before (Rows.split_ne_nil text) 1 lt
  · intro short
    rw [← file.byteCount_text] at short
    constructor
    · intro offset near
      exact LineTable.position?_eq short near
    · intro line
      exact LineTable.lineText?_eq short line

/-- The letter of two bytes counts for two columns, and the empty line has its one column. -/
theorem lines_and_offsets_inverse_accented :
    let file : SourceFile := ⟨"top.v", "é\n\nb"⟩
    file.position 4 = ⟨3, 1⟩ ∧
    4 = ∑ line ∈ Finset.Ico 1 3, (byteCount (file.lineText line) + 1) ∧
    LineTable.position? file.text.toList 4 = some (file.position 4) ∧
    LineTable.lineText? file.text.toList 1 = some (file.lineText 1) := by
  intro file
  obtain ⟨plainly, _, _, _, safe⟩ := lines_and_offsets_inverse file
  have short : file.text.utf8ByteSize = 5 := by decide +kernel
  have place : file.position 4 = ⟨3, 1⟩ := by decide +kernel
  have sum := ((plainly (by decide +kernel)).2 4 (short ▸ by decide)).2.2.2.2
  obtain ⟨positions, lines⟩ := safe (short ▸ by decide)
  rw [place] at sum
  exact ⟨place, sum, positions 4 (by decide), lines 1⟩

namespace LineTable

theorem bytes_replicate (count : Nat) :
    bytes (List.replicate count 'a') = List.replicate count 97 := by
  induction count with
  | zero => rfl
  | succ count ih =>
    rw [List.replicate_succ, List.replicate_succ, ← ih]
    rfl

theorem bytes_around (count : Nat) : bytes ('\n' :: (List.replicate count 'a' ++ ['\n'])) =
    10 :: (List.replicate count 97 ++ [10]) := by
  rw [← bytes_replicate]
  exact congrArg (10 :: ·) (bytes_append _ _)

theorem feeds_around (count : Nat) :
    (bytes ('\n' :: (List.replicate count 'a' ++ ['\n']))).zipIdx.filter (·.1 == 10) =
      [(10, 0), (10, count + 1)] := by
  have none : ((List.replicate count (97 : UInt8)).zipIdx 1).filter (·.1 == 10) = [] := by
    rw [List.filter_eq_nil_iff]
    intro entry member
    rw [List.eq_of_mem_replicate (List.fst_mem_of_mem_zipIdx member)]
    decide
  rw [bytes_around, List.zipIdx_cons, List.filter_cons_of_pos rfl, List.zipIdx_append,
    List.filter_append, none, List.length_replicate, List.nil_append, Nat.add_comm 0, Nat.add_comm 1]
  rfl

/-- Where the second start is that of the third line as well, the second line cannot be cut out. -/
theorem lineText?_eq_none {text : List Char} (known : starts? text = some [0, 1, 1]) :
    lineText? text 2 = none := by
  rw [lineText?, known]
  change ((skip? text 1).bind fun _ => none).bind _ = none
  cases skip? text 1 <;> rfl

end LineTable

/-- Beyond 32 bits the table goes wrong. The line feed at offset `2 ^ 32` counts as one at offset 0,
so that the second line would end before it starts. -/
theorem lines_and_offsets_fail_beyond :
    let file : SourceFile :=
      ⟨"top.v", .ofList ('\n' :: (List.replicate (2 ^ 32 - 1) 'a' ++ ['\n']))⟩
    file.text.utf8ByteSize = 2 ^ 32 + 1 ∧
      LineTable.starts? file.text.toList = some [0, 1, 1] ∧
      LineTable.lineText? file.text.toList 2 = none := by
  intro file
  have letters : file.text.toList = '\n' :: (List.replicate (2 ^ 32 - 1) 'a' ++ ['\n']) :=
    String.toList_ofList
  have size : (LineTable.bytes file.text.toList).length = 2 ^ 32 + 1 := by
    rw [letters, LineTable.bytes_around, List.length_cons, List.length_append,
      List.length_replicate, List.length_singleton]
    omega
  have starts : LineTable.starts? file.text.toList = some [0, 1, 1] := by
    rw [LineTable.starts?, letters, LineTable.feeds_around]
    rfl
  rw [LineTable.length_bytes, file.byteCount_text] at size
  exact ⟨size, starts, LineTable.lineText?_eq_none starts⟩

end NetSynth
