import NetSynth.Diagnostic.Render

/-!
The settings of a project.
-/

namespace NetSynth

/-- Generations of the source language, from the oldest to the newest. -/
inductive Generation where
  | v1995
  | v2001
  | v2001x
  deriving DecidableEq

namespace Generation

def rank : Generation → Nat
  | .v1995 => 0
  | .v2001 => 1
  | .v2001x => 2

def allowsRealModulus (generation : Generation) : Bool := v2001x.rank ≤ generation.rank

end Generation

/-- The generation to build for, and the number of errors at which a run gives up. -/
structure SynthesisSettings where
  generation : Generation := .v2001x
  errorLimit : Option Nat := none
  deriving DecidableEq

inductive MessageFormat where
  | line
  | terminal
  deriving DecidableEq

structure DiagnosticSettings where
  format : MessageFormat := .line
  color : Bool := false
  deriving DecidableEq

def DiagnosticSettings.style (settings : DiagnosticSettings) : RenderStyle :=
  match settings.format with
  | .line => .line
  | .terminal => .excerpt settings.color

structure Settings where
  projectName : String
  synthesis : SynthesisSettings := {}
  diagnostics : DiagnosticSettings := {}
  deriving DecidableEq

end NetSynth
