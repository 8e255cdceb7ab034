import NetSynth.Diagnostic.Basic
import NetSynth.Source.Library

/-!
Messages as text, on one line each or with an excerpt of the source. In an excerpt the line of the
source and the line of carets below it start at the same column.
-/

namespace NetSynth

inductive RenderStyle where
  | line
  | excerpt (color : Bool)
  deriving DecidableEq

namespace Diagnostic

def blanks (count : Nat) : String := .ofList (List.replicate count ' ')

/-- The form `path:line: severity: message [code]`; a message without a place starts with its
severity. -/
def renderLine (library : SourceLibrary) (diagnostic : Diagnostic) : String :=
  let body := s!"{diagnostic.severity.text}: {diagnostic.message} [{diagnostic.code.text}]"
  match library.place? diagnostic.span with
  | some place => s!"{place.text}: {body}"
  | none => body

def colorOn : Severity → String
  | .error | .internal => "\x1b[1;31m"
  | .unsupported => "\x1b[1;35m"
  | .warning => "\x1b[1;33m"
  | .note | .help => "\x1b[1;36m"

def colorOff : String := "\x1b[0m"

def header (color : Bool) (diagnostic : Diagnostic) : String :=
  let head := s!"{diagnostic.severity.text}[{diagnostic.code.text}]"
  let shown := if color then colorOn diagnostic.severity ++ head ++ colorOff else head
  s!"{shown}: {diagnostic.message}\n"

/-- The margin of an excerpt line: a line number or blanks of the same length, and a bar. -/
def margin (number : String) : String := s!"{number} | "

def carets (place : Place) : String :=
  .ofList (List.replicate (max (place.endColumn - place.column) 1) '^')

/-- The location, the line of the source and the carets, followed by the first primary label. -/
def excerpt (file : SourceFile) (place : Place) (labels : List Label) : String :=
  let number := toString place.line
  let blank := blanks number.length
  let remark := match labels.find? (·.style == .primary) with
    | some label => s!" {label.message}"
    | none => ""
  s!"{blank}--> {place.path}:{place.line}:{place.column}\n"
    ++ s!"{blank} |\n"
    ++ s!"{margin number}{String.ofList (file.lineText place.line)}\n"
    ++ s!"{margin blank}{blanks (place.column - 1)}{carets place}{remark}\n"

def remark (text : String) : String := s!"   = {text}\n"

def labelRemark (library : SourceLibrary) (label : Label) : String :=
  match library.place? label.span with
  | some place => remark s!"{place.text}: {label.message}"
  | none => remark label.message

/-- The form with an excerpt: header, source, secondary labels, notes, help. -/
def renderExcerpt (color : Bool) (library : SourceLibrary) (diagnostic : Diagnostic) : String :=
  let shown := match library.fileOf? diagnostic.span with
    | some file =>
        excerpt file (SourceLibrary.placeIn file diagnostic.span) diagnostic.labels
    | none => ""
  let context := (diagnostic.labels.filter (·.style == .secondary)).map (labelRemark library)
  let notes := diagnostic.notes.map fun note => remark s!"note: {note}"
  let help := diagnostic.help.map fun advice => remark s!"help: {advice}"
  diagnostic.header color ++ shown ++ String.join (context ++ notes ++ help)

def render (style : RenderStyle) (library : SourceLibrary) (diagnostic : Diagnostic) : String :=
  match style with
  | .line => diagnostic.renderLine library
  | .excerpt color => diagnostic.renderExcerpt color library

end Diagnostic

end NetSynth
