/-!
Digits and the numbers that they write.
-/

namespace NetSynth.Toml

def digitValue (letter : Char) : Nat :=
  if letter.isDigit then letter.toNat - '0'.toNat else letter.toLower.toNat - 'a'.toNat + 10

def number (radix : Nat) (digits : List Char) : Nat :=
  digits.foldl (fun value letter => value * radix + digitValue letter) 0

def isDigitIn (radix : Nat) (letter : Char) : Bool :=
  (letter.isDigit || letter.isAlpha) && digitValue letter < radix

/-- The digits of a word in which single underscores may stand between digits. -/
def digits? (isDigit : Char → Bool) : List Char → Option (List Char)
  | [] => none
  | [letter] => if isDigit letter then some [letter] else none
  | letter :: '_' :: rest =>
      if isDigit letter then (digits? isDigit rest).map (letter :: ·) else none
  | letter :: rest => if isDigit letter then (digits? isDigit rest).map (letter :: ·) else none

end NetSynth.Toml
