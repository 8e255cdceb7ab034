/-!
Readers take a value from the front of a text, or fail.
-/

namespace NetSynth.Toml

abbrev Reader := StateT (List Char) Option

namespace Reader

def atEnd : Reader Bool := return (← get).isEmpty

/-- Whether the text goes on with the given letters; they stay. -/
def ahead (letters : String) : Reader Bool := return letters.toList.isPrefixOf (← get)

def takeWhile (holds : Char → Bool) : Reader (List Char) :=
  modifyGet (List.span holds)

def exactly (letters : String) : Reader Unit := do
  guard (← ahead letters)
  modify (List.drop letters.length)

def skip (letters : String) : Reader Bool := do
  let found ← ahead letters
  if found then
    exactly letters
  return found

def letter : Reader Char := do
  match ← get with
  | [] => failure
  | first :: rest =>
      set rest
      return first

/-- Reads items for as long as one can be read, and leaves the text behind the last of them. An item
that takes nothing ends the row. -/
def repeated (item : Reader α) (text : List Char) : List α × List Char :=
  match item text with
  | none => ([], text)
  | some (first, rest) =>
      if rest.length < text.length then
        let (others, rest) := repeated item rest
        (first :: others, rest)
      else
        ([], text)
termination_by text.length

def many (item : Reader α) : Reader (List α) := modifyGet (repeated item)

def separated (mark : String) (item : Reader α) : Reader (List α) := do
  let first ← item
  return first :: (← many do
    exactly mark
    item)

end Reader

end NetSynth.Toml
