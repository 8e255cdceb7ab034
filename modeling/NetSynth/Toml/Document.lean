import NetSynth.Toml.Lines

/-!
The table that the lines of a settings file build up.
-/

namespace NetSynth.Toml

/-- The names of the table that the last header named, and the entries so far. -/
structure Progress where
  current : List String := []
  entries : Entries := []

def Progress.add (progress : Progress) : Statement → Option Progress
  | .header path name => do
      let entries ← changeAt false (nameTable name) path .header progress.entries
      return ⟨path ++ [name], entries⟩
  | .element path name => do
      let entries ← changeAt false (startElement name) path .header progress.entries
      return ⟨path ++ [name], entries⟩
  | .entry path name value => do
      let entries ← changeAt false (insertAt path name value) progress.current .header
        progress.entries
      return { progress with entries }

def parse? (text : String) : Option Entries := do
  let (statements, _) ← Reader.file.run text.toList
  return (← statements.foldlM Progress.add {}).entries

end NetSynth.Toml
