import NetSynth.Toml.Value

/-!
What may be added to the tables of a settings file. A table has one place in the file: its header,
its braces, or the dotted keys that lead into it.
-/

namespace NetSynth.Toml

/-- Adds a value under a name to a table. With a dotted key only a table that dotted keys made takes
the value, with a plain key only one that they did not. -/
def insertEntry (path : List String) (name : String) (value : Value) (form : TableForm)
    (entries : Entries) : Option Entries :=
  if (form == .dotted) == path.isEmpty || (entries.lookup name).isSome then none
  else some (entries ++ [(name, value)])

def replaceEntry (name : String) (value : Value) (entries : Entries) : Entries :=
  entries.map fun entry => if entry.1 = name then (name, value) else entry

/-- Changes the table at the end of a path. Tables that are missing on the way are made; in an array
of tables the way goes through the last one. A dotted key does not enter a table with a header, and
nothing enters a table in braces. -/
def changeAt (dotted : Bool) (change : TableForm → Entries → Option Entries) :
    List String → TableForm → Entries → Option Entries
  | [], form, entries => change form entries
  | name :: path, _, entries =>
      match entries.lookup name with
      | none => do
          let form := if dotted then TableForm.dotted else .implied
          return entries ++ [(name, .table form (← changeAt dotted change path form []))]
      | some (.table form inner) => do
          guard !(form = .inline || (dotted && form = .header))
          let inner ← changeAt dotted change path form inner
          return replaceEntry name (.table form inner) entries
      | some (.tables rows) => do
          let last ← rows.getLast?
          let last ← changeAt dotted change path .header last
          return replaceEntry name (.tables (rows.dropLast ++ [last])) entries
      | some _ => none

def insertAt (path : List String) (name : String) (value : Value) (form : TableForm)
    (entries : Entries) : Option Entries :=
  changeAt true (insertEntry path name value) path form entries

/-- Names a table by a header. A header comes once for a table, but it may come after the headers of
tables inside. -/
def nameTable (name : String) (_ : TableForm) (entries : Entries) : Option Entries :=
  match entries.lookup name with
  | none => some (entries ++ [(name, .table .header [])])
  | some (.table .implied inner) => some (replaceEntry name (.table .header inner) entries)
  | some _ => none

def startElement (name : String) (_ : TableForm) (entries : Entries) : Option Entries :=
  match entries.lookup name with
  | none => some (entries ++ [(name, .tables [[]])])
  | some (.tables rows) => some (replaceEntry name (.tables (rows ++ [[]])) entries)
  | some _ => none

end NetSynth.Toml
