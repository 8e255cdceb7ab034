import NetSynth.Source.Span

/-!
Messages for the user: a severity, a code, a text, and the spans and remarks that go with it.
-/

namespace NetSynth

/-- Severities, from the mildest to the worst. Code that is legal but not supported counts as an
error. -/
inductive Severity where
  | help
  | note
  | warning
  | unsupported
  | error
  | internal
  deriving DecidableEq

namespace Severity

def rank : Severity → Nat
  | .help => 0
  | .note => 1
  | .warning => 2
  | .unsupported => 3
  | .error => 4
  | .internal => 5

def order (first second : Severity) : Ordering := compare first.rank second.rank

def isError (severity : Severity) : Bool := unsupported.rank ≤ severity.rank

def text : Severity → String
  | .help => "help"
  | .note => "note"
  | .warning => "warning"
  | .unsupported => "sorry"
  | .error => "error"
  | .internal => "internal error"

end Severity

/-- What a code is about: a mistake of the user, a doubtful construct, a construct without support,
or input that earlier stages should have refused. -/
inductive Category where
  | error
  | warning
  | unsupported
  | internal
  deriving DecidableEq

namespace Category

def letter : Category → Char
  | .error => 'E'
  | .warning => 'W'
  | .unsupported => 'S'
  | .internal => 'I'

end Category

structure Code where
  category : Category
  number : Nat
  deriving DecidableEq

def Code.text (code : Code) : String :=
  let digits := toString code.number
  String.singleton code.category.letter ++ String.ofList (List.replicate (3 - digits.length) '0')
    ++ digits

inductive LabelStyle where
  | primary
  | secondary
  deriving DecidableEq

structure Label where
  style : LabelStyle
  span : Span
  message : String
  deriving DecidableEq

structure Diagnostic where
  severity : Severity
  code : Code
  message : String
  span : Span
  labels : List Label := []
  notes : List String := []
  help : List String := []
  deriving DecidableEq

/-- The messages that are held, and how many errors were ever reported. -/
structure DiagnosticLog where
  held : Array Diagnostic := #[]
  errorCount : Nat := 0

namespace DiagnosticLog

def report (log : DiagnosticLog) (diagnostic : Diagnostic) : DiagnosticLog where
  held := log.held.push diagnostic
  errorCount := if diagnostic.severity.isError then log.errorCount + 1 else log.errorCount

def hasErrors (log : DiagnosticLog) : Bool := 0 < log.errorCount

/-- Hands out the held messages. The number of errors stays. -/
def take (log : DiagnosticLog) : Array Diagnostic × DiagnosticLog :=
  (log.held, { log with held := #[] })

end DiagnosticLog

end NetSynth
