import NetSynth.Toml.Quoted
import NetSynth.Toml.Scalar
import NetSynth.Toml.Table

/-!
The lines of a settings file: headers, and keys with their values.
-/

namespace NetSynth.Toml

/-- What one line says. A header or a key consists of the names on the way and the last name. -/
inductive Statement where
  | header (path : List String) (name : String)
  | element (path : List String) (name : String)
  | entry (path : List String) (name : String) (value : Value)

/-- Values nest less deep than this, and a key has fewer names. -/
def depthLimit : Nat := 80

def isKeyLetter (letter : Char) : Bool := letter.isAlphanum || letter == '-' || letter == '_'

def isWordLetter (letter : Char) : Bool := isKeyLetter letter || letter == '+' || letter == '.' ||
  letter == ':'

namespace Reader

def blanks : Reader Unit := do
  let _ ← takeWhile isBlank

def comment : Reader Unit := do
  exactly "#"
  let _ ← takeWhile isPlain

/-- Blanks, line ends and comments, as they may stand inside an array. -/
def filling : Reader Unit := do
  let _ ← many (newline <|> comment <|> do
    let run ← takeWhile isBlank
    guard !run.isEmpty)

def name : Reader String := do
  if ← ahead "\"" then shortText '"' true
  else if ← ahead "'" then shortText '\'' false
  else
    let word ← takeWhile isKeyLetter
    guard !word.isEmpty
    return .ofList word

def key : Reader (List String × String) := do
  let names ← separated "." do
    blanks
    let name ← name
    blanks
    return name
  guard (names.length < depthLimit)
  match names.getLast? with
  | some last => return (names.dropLast, last)
  | none => failure

def text : Reader String := do
  if ← ahead "\"\"\"" then longText '"' true
  else if ← ahead "\"" then shortText '"' true
  else if ← ahead "'''" then longText '\'' false
  else shortText '\'' false

/-- A value without quotes. A blank may stand between a date and a time. -/
def word : Reader Value := do
  let first ← takeWhile isWordLetter
  let timed ← (do
    guard (isDate first)
    exactly " "
    let time ← takeWhile isWordLetter
    guard (isTime true time)
    return first ++ ' ' :: time) <|> return first
  match scalar? timed with
  | some value => return value
  | none => failure

def pair (value : Reader Value) : Reader (List String × String × Value) := do
  let (path, last) ← key
  exactly "="
  blanks
  return (path, last, ← value)

def inlineTable (pairs : List (List String × String × Value)) : Reader Value := do
  match pairs.foldlM (fun entries (path, name, value) =>
    insertAt path name value .inline entries) [] with
  | some entries => return .table .inline entries
  | none => failure

/-- A value with at most `room` levels of nesting. -/
def value : (room : Nat) → Reader Value
  | 0 => (Value.string <$> text) <|> word
  | room + 1 => do
      if ← skip "[" then
        let item := do
          filling
          let item ← value room
          filling
          return item
        let items ← separated "," item <|> return []
        if !items.isEmpty then
          let _ ← skip ","
        filling
        exactly "]"
        return .array items
      else if ← skip "\x7b" then
        let item := do
          let pair ← pair (value room)
          blanks
          return pair
        let pairs ← separated "," item <|> return []
        blanks
        exactly "\x7d"
        inlineTable pairs
      else
        (Value.string <$> text) <|> word

def lineEnd : Reader Unit := do
  blanks
  let _ ← optional comment
  if !(← atEnd) then
    newline

def line : Reader (Option Statement) := do
  blanks
  guard !(← atEnd)
  let statement ← (do
    if ← skip "[[" then
      let (path, name) ← key
      exactly "]]"
      return some (.element path name)
    else if ← skip "[" then
      let (path, name) ← key
      exactly "]"
      return some (.header path name)
    else
      let (path, name, value) ← pair (value (depthLimit - 1))
      return some (.entry path name value)) <|> return none
  lineEnd
  return statement

/-- The lines of a whole file. A mark of the byte order may stand in front. -/
def file : Reader (List Statement) := do
  let _ ← skip "\ufeff"
  let lines ← many line
  blanks
  guard (← atEnd)
  return lines.reduceOption

end Reader

end NetSynth.Toml
