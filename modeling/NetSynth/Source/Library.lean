import NetSynth.Source.Span
import NetSynth.Source.Rows

/-!
The source files of a session, and spans turned into lines and columns.
-/

namespace NetSynth

structure SourceFile where
  path : String
  text : String

namespace SourceFile

def rows (file : SourceFile) : List (List Char) := Rows.split file.text.toList

/-- The line and column of a byte; bytes past the end lie on the last line. -/
def position (file : SourceFile) (offset : Nat) : Position := Rows.position file.rows 1 offset

/-- A line without its end, and nothing for a line that the file does not have. Line 0 is the
first. -/
def lineText (file : SourceFile) (line : Nat) : List Char :=
  Rows.trimmed (file.rows.getD (line - 1) [])

end SourceFile

/-- A span as a reader sees it: the columns from `column` up to `endColumn` of one line. -/
structure Place where
  path : String
  line : Nat
  column : Nat
  endColumn : Nat
  deriving DecidableEq

def Place.text (place : Place) : String := s!"{place.path}:{place.line}"

structure SourceLibrary where
  files : Array SourceFile := #[]

namespace SourceLibrary

def add (library : SourceLibrary) (file : SourceFile) : FileId × SourceLibrary :=
  (⟨library.files.size⟩, ⟨library.files.push file⟩)

def file? (library : SourceLibrary) (id : FileId) : Option SourceFile := library.files[id.index]?

/-- The place of a span within one file. On one line it shows at least one column, and a span that
goes on below shows the rest of its first line. -/
def placeIn (file : SourceFile) (span : Span) : Place :=
  let first := file.position span.start
  let last := file.position (max span.stop span.start)
  let endColumn :=
    if last.line = first.line then max last.column (first.column + 1)
    else Rows.byteCount (file.lineText first.line) + 1
  ⟨file.path, first.line, first.column, endColumn⟩

def fileOf? (library : SourceLibrary) (span : Span) : Option SourceFile :=
  span.file.bind library.file?

def place? (library : SourceLibrary) (span : Span) : Option Place :=
  (library.fileOf? span).map (placeIn · span)

end SourceLibrary

end NetSynth
