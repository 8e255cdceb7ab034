/-!
Values of a settings file. Numbers with a fraction and dates are kept as they are written.
-/

namespace NetSynth.Toml

/-- How a table came to be, which decides what may still be added to it. -/
inductive TableForm where
  /-- Written in braces on one line. -/
  | inline
  /-- Named by a header of its own. -/
  | header
  /-- On the way to a table that a header names. -/
  | implied
  /-- On the way to a value that a dotted key names. -/
  | dotted
  deriving DecidableEq

inductive Value where
  | string (text : String)
  | integer (value : Int)
  | float (text : String)
  | boolean (value : Bool)
  | datetime (text : String)
  | array (items : List Value)
  | table (form : TableForm) (entries : List (String × Value))
  /-- The tables that headers in double brackets name, one after the other. -/
  | tables (rows : List (List (String × Value)))

/-- The keys and values of a table, in the order of their first mention. -/
abbrev Entries := List (String × Value)

end NetSynth.Toml
