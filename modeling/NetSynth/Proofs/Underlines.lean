import NetSynth.Diagnostic.Render
import NetSynth.Proofs.ShownSpans

/-! The carets of an excerpt stand below the bytes of the span, with as many of them as the span has
bytes on its first line. -/
namespace NetSynth

open LineTable (bytes lineHead lineTail lineStart lineEnd textEnd shownEnd)

namespace Diagnostic

theorem toList_excerpt (file : SourceFile) (place : Place) (labels : List Label) :
    ∃ above letter rest, (excerpt file place labels).toList =
      above ++ '\n' :: ((margin (toString place.line)).toList ++ file.lineText place.line ++
        '\n' :: ((margin (blanks (toString place.line).length)).toList ++
          List.replicate (place.column - 1) ' ' ++
          List.replicate (max (place.endColumn - place.column) 1) '^' ++ letter :: rest)) ∧
      letter ≠ '^' := by
  let blank := blanks (toString place.line).length
  let above := s!"{blank}--> {place.path}:{place.line}:{place.column}\n" ++ s!"{blank} |"
  cases labelled : labels.find? (·.style == .primary) with
  | none =>
    refine ⟨above.toList, '\n', [], ?_, by decide⟩
    simp [excerpt, labelled, blanks, carets, above, blank, ToString.toString]
  | some label =>
    refine ⟨above.toList, ' ', label.message.toList ++ ['\n'], ?_, by decide⟩
    simp [excerpt, labelled, blanks, carets, above, blank, ToString.toString]

theorem exists_render {library : SourceLibrary} {diagnostic : Diagnostic} {file : SourceFile}
    (known : library.fileOf? diagnostic.span = some file) (color : Bool) :
    ∃ after, (diagnostic.render (.excerpt color) library).toList =
      (diagnostic.header color).toList ++ (excerpt file
        (SourceLibrary.placeIn file diagnostic.span) diagnostic.labels).toList ++ after := by
  rw [render, renderExcerpt, known]
  exact ⟨_, by rw [String.toList_append, String.toList_append]⟩

theorem toList_margin (number : String) : (margin number).toList = number.toList ++ [' ', '|', ' '] := by
  simp [margin, ToString.toString]

theorem byteCount_margin (line : Nat) : Rows.byteCount (margin (toString line)).toList =
    Rows.byteCount (margin (blanks (toString line).length)).toList := by
  have digits : Rows.byteCount (toString line).toList = (toString line).length :=
    Rows.byteCount_eq_length fun letter member => utf8Size_of_isDigit (isDigit_of_mem_repr member)
  have spaces : Rows.byteCount (blanks (toString line).length).toList = (toString line).length := by
    rw [blanks, String.toList_ofList, Rows.byteCount_eq_length, List.length_replicate]
    intro letter member
    rw [List.eq_of_mem_replicate member]
    rfl
  rw [toList_margin, toList_margin, Rows.byteCount_append, Rows.byteCount_append, digits, spaces]

theorem feed_notMem_margin (line : Nat) : '\n' ∉ (margin (toString line)).toList := by
  rw [toList_margin, List.mem_append, not_or]
  exact ⟨fun member => absurd (isDigit_of_mem_repr member) (by decide), by decide⟩

theorem notMem_blank_margin {letter : Char} (space : letter ≠ ' ') (bar : letter ≠ '|') (count : Nat) :
    letter ∉ (margin (blanks count)).toList := by
  rw [toList_margin, blanks, String.toList_ofList]
  simp [space, bar]

/-- They are two neighbouring rows of any text that has the excerpt in it. -/
theorem split_excerpt {file : SourceFile} {place : Place} (labels : List Label)
    (plain : '\n' ∉ file.lineText place.line) (before after : List Char) :
    ∃ earlier remark later,
      Rows.split (before ++ (excerpt file place labels).toList ++ after) =
        earlier ++ ((margin (toString place.line)).toList ++ file.lineText place.line) ::
          ((margin (blanks (toString place.line).length)).toList ++
            List.replicate (place.column - 1) ' ' ++
            List.replicate (max (place.endColumn - place.column) 1) '^' ++ remark) :: later ∧
      remark.head? ≠ some '^' := by
  obtain ⟨above, letter, rest, same, other⟩ := toList_excerpt file place labels
  obtain ⟨remark, later, known⟩ :=
    List.exists_cons_of_ne_nil (Rows.split_ne_nil (letter :: (rest ++ after)))
  have numbered : '\n' ∉ (margin (toString place.line)).toList ++ file.lineText place.line := by
    rw [List.mem_append, not_or]
    exact ⟨feed_notMem_margin place.line, plain⟩
  have carets : '\n' ∉ (margin (blanks (toString place.line).length)).toList ++
      List.replicate (place.column - 1) ' ' ++
      List.replicate (max (place.endColumn - place.column) 1) '^' := by
    have blank := notMem_blank_margin (show '\n' ≠ ' ' by decide) (show '\n' ≠ '|' by decide)
    simp [blank]
  refine ⟨Rows.split (before ++ above), remark, later, ?_, ?_⟩
  · rw [same, ← Rows.split_append_two numbered carets known]
    simp only [List.append_assoc, List.cons_append]
  · intro first
    exact other (Option.some.inj (Rows.head?_text known first))

end Diagnostic

theorem SourceLibrary.placeIn_indent {file : SourceFile} {span : Span}
    (ordered : span.start ≤ span.stop) (inText : span.stop ≤ file.text.utf8ByteSize) :
    (placeIn file span).column - 1 = (lineHead (bytes file.text.toList) span.start).length := by
  have head := LineTable.length_lineHead_le (bytes file.text.toList) span.start
  rw [(placeIn_columns ordered inText).1, lineStart]
  omega

/-- Without carriage returns a place spans its bytes on the first line, and at least one. -/
theorem SourceLibrary.placeIn_width {file : SourceFile} {span : Span}
    (plain : '\r' ∉ file.text.toList) (ordered : span.start ≤ span.stop)
    (inText : span.stop ≤ file.text.utf8ByteSize) :
    max ((placeIn file span).endColumn - (placeIn file span).column) 1 =
      max 1 (min span.stop (lineEnd (bytes file.text.toList) span.start) - span.start) := by
  obtain ⟨column, ended⟩ := placeIn_columns ordered inText
  have whole : textEnd (bytes file.text.toList) span.start =
      lineEnd (bytes file.text.toList) span.start :=
    (LineTable.untrimmed_of_notMem (LineTable.notMem_bytes '\r' (by decide) plain) _).2
  have low : lineStart (bytes file.text.toList) span.start ≤ span.start := Nat.sub_le _ _
  have high : span.start ≤ lineEnd (bytes file.text.toList) span.start := Nat.le_add_right _ _
  rw [column, ended, shownEnd, whole]
  split <;> omega

theorem LineTable.position?_single {text : List Char} (plain : '\n' ∉ text)
    (short : Rows.byteCount text < 2 ^ 32) (offset : Nat) :
    position? text offset = (plus? offset 1).map (⟨1, ·⟩) := by
  have single := Rows.split_append_of_notMem plain (show Rows.split [] = [[]] from rfl)
  rw [List.append_nil] at single
  have located : Rows.Locates (Rows.split text) offset 0 := by
    rw [single]
    exact ⟨Nat.one_pos, Nat.zero_le _, fun more => absurd more (by simp)⟩
  have first : Rows.before (Rows.split text) 0 = 0 := by rw [single]; rfl
  rw [position?, starts?_eq short, Option.bind_eq_bind, Option.bind_some, line?_eq located,
    Option.bind_eq_bind, Option.bind_some, getElem?_starts, if_pos located.inside, first,
    Option.bind_some, minus?, if_pos (Nat.zero_le _), Option.bind_some, Nat.sub_zero]
  cases plus? offset 1 <;> rfl

/-- A file of one line of letters, with the empty span at its end. -/
theorem LineTable.position?_letters {count : Nat} (short : count < 2 ^ 32) :
    let file : SourceFile := ⟨"top.v", .ofList (List.replicate count 'a')⟩
    '\r' ∉ file.text.toList ∧ file.text.utf8ByteSize = count ∧
      position? file.text.toList count = (plus? count 1).map (⟨1, ·⟩) := by
  intro file
  have letters : file.text.toList = List.replicate count 'a' := String.toList_ofList
  have size : Rows.byteCount file.text.toList = count := by
    rw [← length_bytes, letters, bytes_replicate, List.length_replicate]
  have plain {letter : Char} (other : letter ≠ 'a') : letter ∉ file.text.toList := by
    rw [letters]
    exact fun member => other (List.eq_of_mem_replicate member)
  refine ⟨plain (by decide), file.byteCount_text.symm.trans size, ?_⟩
  exact position?_single (plain (by decide)) (size.trans_lt short) count

end NetSynth
