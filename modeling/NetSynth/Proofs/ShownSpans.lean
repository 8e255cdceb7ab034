import NetSynth.Proofs.LineBounds
import NetSynth.Proofs.LineCoordinates

/-! The columns in which a span is shown, as offsets on its first line. They are at least one and
grow with the span as long as it does not start in the end of a line or go past it. -/
namespace NetSynth

namespace LineTable

/-- The column after the last one that is shown of a span between two positions. -/
def endColumn? (text : List Char) (first last : Position) : Option Nat :=
  if last.line = first.line then (plus? first.column 1).map (max last.column)
  else (lineText? text first.line).bind fun shown => plus? (Rows.byteCount shown % 2 ^ 32) 1

/-- The place of a span, off the table of line starts and in 32 bits. -/
def place? (file : SourceFile) (span : Span) : Option Place := do
  let first ← position? file.text.toList span.start
  let last ← position? file.text.toList (max span.stop span.start)
  let endColumn ← endColumn? file.text.toList first last
  return ⟨file.path, first.line, first.column, endColumn⟩

/-- Where a span ends on its first line. Within the line that is its own end, or one byte on if it
is empty; a span that goes on below ends with the text of the line. -/
def shownEnd (bytes : List UInt8) (start stop : Nat) : Nat :=
  if stop ≤ lineEnd bytes start then max stop (start + 1) else textEnd bytes start

theorem lineStart_le_shownEnd (bytes : List UInt8) (start stop : Nat) :
    lineStart bytes start ≤ shownEnd bytes start stop := by
  have low : lineStart bytes start ≤ start := Nat.sub_le _ _
  rw [shownEnd, textEnd]
  split <;> omega

theorem lt_shownEnd_iff (bytes : List UInt8) (start stop : Nat) :
    start < shownEnd bytes start stop ↔ stop ≤ lineEnd bytes start ∨ start < textEnd bytes start := by
  rw [shownEnd]
  split <;> omega

theorem shownEnd_le_iff (bytes : List UInt8) {start stop stop' : Nat} (longer : stop ≤ stop') :
    shownEnd bytes start stop ≤ shownEnd bytes start stop' ↔
      stop' ≤ lineEnd bytes start ∨ lineEnd bytes start < stop ∨
        max stop (start + 1) ≤ textEnd bytes start := by
  rw [shownEnd, shownEnd]
  split <;> split <;> omega

end LineTable

open LineTable (bytes lineHead lineTail lineStart lineEnd textEnd shownEnd)

variable {file : SourceFile} {span : Span}

theorem SourceFile.bytes_lineText {offset : Nat} (inText : offset ≤ file.text.utf8ByteSize) :
    bytes (file.lineText (file.position offset).line) =
      (lineHead (bytes file.text.toList) offset ++
        lineTail (bytes file.text.toList) offset).rdropWhile (· == 13) := by
  obtain ⟨place, located, same⟩ :=
    Rows.exists_locates (Rows.split_ne_nil file.text.toList) 1 offset
  have known := List.getElem?_eq_getElem located.inside
  rw [← file.byteCount_text] at inText
  obtain ⟨head, tail⟩ := LineTable.line_of_locates located inText known
  rw [head, tail, List.take_append_drop, ← LineTable.bytes_trimmed, lineText, position, rows, same,
    Nat.add_sub_cancel_left, List.getD_eq_getElem?_getD, known, Option.getD_some]

theorem SourceLibrary.placeIn_columns (ordered : span.start ≤ span.stop)
    (inText : span.stop ≤ file.text.utf8ByteSize) :
    (placeIn file span).column =
        span.start - lineStart (bytes file.text.toList) span.start + 1 ∧
      (placeIn file span).endColumn = shownEnd (bytes file.text.toList) span.start span.stop -
        lineStart (bytes file.text.toList) span.start + 1 := by
  obtain ⟨place, located, first⟩ :=
    Rows.exists_locates (Rows.split_ne_nil file.text.toList) 1 span.start
  obtain ⟨place', located', last⟩ :=
    Rows.exists_locates (Rows.split_ne_nil file.text.toList) 1 span.stop
  have known := List.getElem?_eq_getElem located.inside
  have shown := @SourceFile.bytes_lineText file _ (ordered.trans inText)
  rw [← file.byteCount_text] at inText
  obtain ⟨starts, ends⟩ := LineTable.bounds_of_locates located (ordered.trans inText) known
  have onLine := located.place_eq_iff located' ordered inText
  rw [Rows.before_succ known, Nat.lt_succ_iff, ← ends] at onLine
  have line : 1 + place' = 1 + place ↔ place' = place := Nat.add_left_cancel_iff
  have low := located.start
  rw [SourceFile.position, SourceFile.rows, first] at shown
  rw [placeIn, SourceFile.position, SourceFile.position, SourceFile.rows, first,
    Nat.max_eq_left ordered, last]
  dsimp only at shown ⊢
  refine ⟨by rw [starts], ?_⟩
  rw [← LineTable.length_bytes, shown, shownEnd]
  by_cases onFirst : place' = place
  · subst onFirst
    rw [if_pos rfl, if_pos (onLine.mp rfl), starts]
    omega
  · rw [if_neg (mt line.mp onFirst), if_neg (mt onLine.mpr onFirst), textEnd,
      Nat.add_sub_cancel_left]

theorem SourceFile.exists_around_lineText (file : SourceFile) (line : Nat) :
    '\n' ∉ file.lineText line ∧
      ∃ first last, file.text.toList = first ++ (file.lineText line ++ last) := by
  rw [lineText, List.getD_eq_getElem?_getD]
  cases known : file.rows[line - 1]? with
  | none => exact ⟨List.not_mem_nil, [], file.text.toList, rfl⟩
  | some row =>
    obtain ⟨first, last, same, _⟩ := Rows.exists_parts known
    obtain ⟨ending, trimmed⟩ : Rows.trimmed row <+: row := List.rdropWhile_prefix _ _
    have whole : file.text.toList = first ++ (row ++ last) :=
      (Rows.intercalate_split _).symm.trans same
    have plain := Rows.feed_notMem_of_mem_split (List.mem_of_getElem? known)
    rw [Option.getD_some]
    refine ⟨fun feed => plain (trimmed ▸ List.mem_append_left _ feed), first, ending ++ last, ?_⟩
    rw [whole, ← List.append_assoc (Rows.trimmed row), trimmed]

theorem SourceFile.byteCount_lineText_le (file : SourceFile) (line : Nat) :
    Rows.byteCount (file.lineText line) ≤ file.text.utf8ByteSize := by
  obtain ⟨_, first, last, whole⟩ := file.exists_around_lineText line
  rw [← file.byteCount_text, whole, Rows.byteCount_append, Rows.byteCount_append]
  omega

/-- Nothing fails in 32 bits while the place of a span is found, as long as they hold the length of
the text and the columns next to it. -/
theorem LineTable.place?_eq {file : SourceFile} {span : Span} (ordered : span.start ≤ span.stop)
    (inText : span.stop ≤ file.text.utf8ByteSize) (short : file.text.utf8ByteSize < 2 ^ 32 - 2) :
    place? file span = some (SourceLibrary.placeIn file span) := by
  have position {offset : Nat} (near : offset ≤ file.text.utf8ByteSize) :
      position? file.text.toList offset = some (file.position offset) := by
    rw [← file.byteCount_text] at near short
    exact position?_eq (by omega) (by omega)
  have ended : endColumn? file.text.toList (file.position span.start) (file.position span.stop) =
      some (SourceLibrary.placeIn file span).endColumn := by
    rw [endColumn?, SourceLibrary.placeIn, Nat.max_eq_left ordered]
    by_cases onLine : (file.position span.stop).line = (file.position span.start).line
    · have column : (file.position span.start).column = _ :=
        (SourceLibrary.placeIn_columns ordered inText).1
      rw [if_pos onLine, if_pos onLine, plus?, if_pos (by omega), Option.map_some]
    · have shown : lineText? file.text.toList (file.position span.start).line =
          some (file.lineText (file.position span.start).line) :=
        lineText?_eq (file.byteCount_text ▸ Nat.lt_of_lt_of_le short (Nat.sub_le _ _)) _
      have width := file.byteCount_lineText_le (file.position span.start).line
      rw [if_neg onLine, if_neg onLine, shown, Option.bind_some, Nat.mod_eq_of_lt (by omega),
        plus?, if_pos (by omega)]
  rw [place?, position (ordered.trans inText), Option.bind_eq_bind, Option.bind_some,
    Nat.max_eq_left ordered, position inText, Option.bind_eq_bind, Option.bind_some, ended]
  rfl

/-- The columns in which a span is shown, for every file of a library and every span within its
text. The end column lies after the first one unless the span starts in the carriage returns or on
the line feed that end its line and goes on below. It grows with the span unless the shorter one
stays on the line and reaches into its end, or is empty there, while the longer one goes on below.
As long as 32 bits hold the length of the text, the place is found in them without a failure. -/
theorem shown_columns_grow_iff {library : SourceLibrary} {span : Span} {file : SourceFile}
    (known : library.fileOf? span = some file) (ordered : span.start ≤ span.stop)
    (inText : span.stop ≤ file.text.utf8ByteSize) :
    let bytes := bytes file.text.toList
    ∃ place, library.place? span = some place ∧
      (place.column < place.endColumn ↔
        span.stop ≤ lineEnd bytes span.start ∨ span.start < textEnd bytes span.start) ∧
      (∀ stop, span.stop ≤ stop → stop ≤ file.text.utf8ByteSize →
        ∃ longer, library.place? { span with stop } = some longer ∧
          (place.endColumn ≤ longer.endColumn ↔
            stop ≤ lineEnd bytes span.start ∨ lineEnd bytes span.start < span.stop ∨
              max span.stop (span.start + 1) ≤ textEnd bytes span.start)) ∧
      (file.text.utf8ByteSize < 2 ^ 32 - 2 → LineTable.place? file span = some place) := by
  intro bytes
  have resolved : ∀ {stop}, library.place? { span with stop } =
      some (SourceLibrary.placeIn file { span with stop }) :=
    fun {stop} => congrArg (Option.map _) known
  have columns : ∀ {stop}, span.start ≤ stop → stop ≤ file.text.utf8ByteSize →
      (SourceLibrary.placeIn file { span with stop }).column =
          span.start - lineStart bytes span.start + 1 ∧
        (SourceLibrary.placeIn file { span with stop }).endColumn =
          shownEnd bytes span.start stop - lineStart bytes span.start + 1 :=
    fun ordered inText => SourceLibrary.placeIn_columns ordered inText
  have low : lineStart bytes span.start ≤ span.start := Nat.sub_le _ _
  have within := LineTable.lineStart_le_shownEnd bytes span.start
  obtain ⟨column, ended⟩ := columns ordered inText
  refine ⟨_, resolved, ?_, ?_, LineTable.place?_eq ordered inText⟩
  · rw [← LineTable.lt_shownEnd_iff, column, ended]
    have := within span.stop
    omega
  · intro stop longer longerInText
    obtain ⟨_, ended'⟩ := columns (ordered.trans longer) longerInText
    refine ⟨_, resolved, ?_⟩
    rw [← LineTable.shownEnd_le_iff bytes longer, ended, ended']
    have := within span.stop
    have := within stop
    omega

theorem shown_columns_grow_iff_accented :
    let file : SourceFile := ⟨"top.v", "é\r\nb"⟩
    let library : SourceLibrary := ⟨#[file]⟩
    ∃ place longer, library.place? ⟨some ⟨0⟩, 0, 2⟩ = some place ∧
      library.place? ⟨some ⟨0⟩, 0, 5⟩ = some longer ∧ place.column < place.endColumn ∧
      place.endColumn ≤ longer.endColumn ∧
      LineTable.place? file ⟨some ⟨0⟩, 0, 2⟩ = some place := by
  intro file library
  have size : file.text.utf8ByteSize = 5 := by decide +kernel
  obtain ⟨place, resolved, nonempty, grows, safe⟩ :=
    @shown_columns_grow_iff library ⟨some ⟨0⟩, 0, 2⟩ file rfl (by decide) (size ▸ by decide)
  obtain ⟨longer, resolved', le⟩ := grows 5 (by decide) (Nat.le_of_eq size.symm)
  exact ⟨place, longer, resolved, resolved', nonempty.mpr (by decide +kernel),
    le.mpr (by decide +kernel), safe (size ▸ by decide)⟩

/-- A span from the line feed into the next line is shown empty, and shorter than the empty span
there. From between two carriage returns it even ends before it starts. -/
theorem shown_columns_shrink :
    let library : SourceLibrary := ⟨#[⟨"top.v", "a\nb"⟩, ⟨"sub.v", "a\r\r\nb"⟩]⟩
    library.place? ⟨some ⟨0⟩, 1, 1⟩ = some ⟨"top.v", 1, 2, 3⟩ ∧
      library.place? ⟨some ⟨0⟩, 1, 2⟩ = some ⟨"top.v", 1, 2, 2⟩ ∧
      library.place? ⟨some ⟨1⟩, 2, 5⟩ = some ⟨"sub.v", 1, 3, 2⟩ := by
  decide +kernel

end NetSynth
