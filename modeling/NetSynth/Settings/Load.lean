import NetSynth.Settings.Basic
import NetSynth.Toml.Document

/-!
Settings read from a text. Unknown keys are ignored, missing ones have their defaults, and a section
may be written as a list of its values in their order.
-/

namespace NetSynth

open Toml (Value Entries)

/-- Why a text gives no settings: it is not well formed or has a value of the wrong kind, a required
value is empty, or a value is out of range. -/
inductive SettingsError where
  | malformed
  | missingField (field : String)
  | invalid (reason : String)
  deriving DecidableEq

def SettingsError.message : SettingsError → String
  | .malformed => "failed to parse configuration"
  | .missingField field => s!"missing required field: {field}"
  | .invalid reason => s!"validation error: {reason}"

namespace Settings

/-- A section: values under their names, or in a fixed order. -/
inductive Section where
  | named (entries : Entries)
  | row (items : List Value)

/-- A date is a section without any known name. -/
def Section.ofValue? : Value → Option Section
  | .table _ entries => some (.named entries)
  | .array items => some (.row items)
  | .tables rows => some (.row (rows.map (.table .header)))
  | .datetime _ => some (.named [])
  | _ => none

def Section.value? (position : Nat) (name : String) : Section → Option Value
  | .named entries => entries.lookup name
  | .row items => items[position]?

def string? : Value → Option String
  | .string text => some text
  | _ => none

def boolean? : Value → Option Bool
  | .boolean value => some value
  | _ => none

def count? : Value → Option Nat
  | .integer value => if 0 ≤ value then some value.toNat else none
  | _ => none

/-- A choice is written as its name, or as a table that has the name for its only key and nothing
under it. -/
def choice? (table : List (String × α)) : Value → Option α
  | .string text => table.lookup text
  | .table _ [(name, .table _ [])] | .table _ [(name, .array [])] => table.lookup name
  | _ => none

def generation? : Value → Option Generation :=
  choice? [("1995", .v1995), ("2001", .v2001), ("2001x", .v2001x)]

def format? : Value → Option MessageFormat := choice? [("line", .line), ("terminal", .terminal)]

def withDefault (default : α) (read : Value → Option α) : Option Value → Option α
  | none => some default
  | some value => read value

def project? (part : Section) : Option String := do string? (← part.value? 0 "name")

/-- A section without names has to give the error limit too. -/
def synthesis? (part : Section) : Option SynthesisSettings := do
  let generation ← withDefault .v2001x generation? (part.value? 0 "generation")
  let errorLimit ← match part, part.value? 1 "error_limit" with
    | .row _, none => none
    | _, limit => withDefault none (Option.map some ∘ count?) limit
  return { generation, errorLimit }

def diagnostics? (part : Section) : Option DiagnosticSettings := do
  let format ← withDefault .line format? (part.value? 0 "format")
  let color ← withDefault false boolean? (part.value? 1 "color")
  return { format, color }

def read? (read : Section → Option α) (value : Value) : Option α := do
  read (← Section.ofValue? value)

def ofEntries? (entries : Entries) : Option Settings := do
  let projectName ← read? project? (← entries.lookup "project")
  let synthesis ← withDefault {} (read? synthesis?) (entries.lookup "synth")
  let diagnostics ← withDefault {} (read? diagnostics?) (entries.lookup "diagnostics")
  return { projectName, synthesis, diagnostics }

def check (settings : Settings) : Except SettingsError Settings :=
  if settings.projectName.isEmpty then
    .error (.missingField "project.name")
  else if settings.synthesis.errorLimit = some 0 then
    .error (.invalid "synth.error_limit must be at least 1")
  else
    .ok settings

def load (text : String) : Except SettingsError Settings :=
  match (Toml.parse? text).bind ofEntries? with
  | some settings => settings.check
  | none => .error .malformed

end Settings

end NetSynth
