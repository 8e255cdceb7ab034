import NetSynth.Toml.Digits
import NetSynth.Toml.Reader

/-!
Quoted texts. Double quotes allow escapes, single quotes take every letter as it is, and three
quotes of a kind allow line ends.
-/

namespace NetSynth.Toml

def isBlank (letter : Char) : Bool := letter == ' ' || letter == '\t'

/-- Letters that may stand in a text or a comment: all but control characters, and the tab. -/
def isPlain (letter : Char) : Bool :=
  letter == '\t' || (' ' ≤ letter && letter ≠ '\x7f')

namespace Reader

def newline : Reader Unit := do
  let _ ← skip "\r"
  exactly "\n"

def codePoint (count : Nat) : Reader Char := do
  let digits := (← get).take count
  guard (digits.length = count && digits.all (isDigitIn 16))
  modify (List.drop count)
  let value := number 16 digits
  guard value.isValidChar
  return .ofNat value

def escape : Reader Char := do
  match ← letter with
  | 'b' => return '\x08'
  | 't' => return '\t'
  | 'n' => return '\n'
  | 'f' => return '\x0c'
  | 'r' => return '\r'
  | '"' => return '"'
  | '\\' => return '\\'
  | 'u' => codePoint 4
  | 'U' => codePoint 8
  | _ => failure

def continuation : Reader Unit := do
  let _ ← takeWhile isBlank
  newline
  let _ ← many (newline <|> do
    let blanks ← takeWhile isBlank
    guard !blanks.isEmpty)

def plain (quote : Char) (escapes : Bool) : Reader (List Char) := do
  let run ← takeWhile fun letter =>
    isPlain letter && letter ≠ quote && !(escapes && letter = '\\')
  guard !run.isEmpty
  return run

def escaped (lines : Bool) : Reader (List Char) := do
  exactly "\\"
  (do guard lines; continuation; return []) <|> (do return [← escape])

/-- One or two quotes inside a text that three quotes end. -/
def loneQuotes (quote : Char) : Reader (List Char) := do
  let run ← takeWhile (· == quote)
  guard (run.length < 3 && !run.isEmpty)
  return run

/-- Three quotes that end a text; up to two more before them belong to the text. -/
def closing (quote : Char) : Reader (List Char) := do
  let run := ((← get).takeWhile (· == quote)).take 5
  guard (3 ≤ run.length)
  modify (List.drop run.length)
  return run.drop 3

def stretch (quote : Char) (escapes : Bool) : Reader (List Char) :=
  plain quote escapes <|> (do guard escapes; escaped true) <|> (do newline; return ['\n']) <|>
    loneQuotes quote

/-- A text between three quotes; a line end right after the first three does not count. -/
def longText (quote : Char) (escapes : Bool) : Reader String := do
  exactly (.ofList [quote, quote, quote])
  let _ ← optional newline
  let body ← many (stretch quote escapes)
  return .ofList (body.flatten ++ (← closing quote))

def shortText (quote : Char) (escapes : Bool) : Reader String := do
  exactly (.singleton quote)
  let body ← many (plain quote escapes <|> (do guard escapes; escaped false))
  exactly (.singleton quote)
  return .ofList body.flatten

end Reader

end NetSynth.Toml
