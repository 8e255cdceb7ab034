import NetSynth.Logic.Integer
import NetSynth.Toml.Digits
import NetSynth.Toml.Value

/-!
Values written without quotes or brackets: truth values, numbers, dates and times. A word is such a
value as a whole or not at all.
-/

namespace NetSynth.Toml

/-- The digits of a decimal number, which has no zero in front. -/
def decimalDigits? (word : List Char) : Option (List Char) := do
  let digits ← digits? Char.isDigit word
  if digits.head? == some '0' && word.length ≠ 1 then none else some digits

def unsigned : List Char → Bool × List Char
  | '+' :: word => (false, word)
  | '-' :: word => (true, word)
  | word => (false, word)

def bounded? (value : Int) : Option Int := if FitsInt64 value then some value else none

/-- Decimal integers may have a sign, those in another radix have none. -/
def integer? : List Char → Option Int
  | '0' :: 'x' :: word => do bounded? (number 16 (← digits? (isDigitIn 16) word))
  | '0' :: 'o' :: word => do bounded? (number 8 (← digits? (isDigitIn 8) word))
  | '0' :: 'b' :: word => do bounded? (number 2 (← digits? (isDigitIn 2) word))
  | word => do
      let (negative, word) := unsigned word
      let value := number 10 (← decimalDigits? word)
      bounded? (if negative then -value else value)

/-- Whether `digits` before a point, shifted by `exponent` places, round to a number beyond the
largest of double precision. -/
def overflows (digits : List Char) (exponent : Int) : Bool :=
  let significant := digits.dropWhile (· == '0')
  let places := significant.length + exponent
  if significant.isEmpty || places < 300 then
    false
  else if 320 < places then
    true
  else
    let limit := (1 <<< 1024) - (1 <<< 970)
    if 0 ≤ exponent then limit ≤ number 10 significant * Nat.pow 10 exponent.toNat
    else limit * Nat.pow 10 (-exponent).toNat ≤ number 10 significant

structure Decimal where
  negative : Bool
  whole : List Char
  fraction : List Char
  exponent : Int

def afterMark? : List Char → Option (List Char)
  | [] => some []
  | _ :: digits => digits? Char.isDigit digits

def exponent? : List Char → Option Int
  | [] => some 0
  | _ :: word => do
      let (negative, word) := unsigned word
      let value := number 10 (← digits? Char.isDigit word)
      some (if negative then -value else value)

def decimal? (word : List Char) : Option Decimal := do
  let (negative, word) := unsigned word
  let (mantissa, power) := word.span fun letter => letter != 'e' && letter != 'E'
  let (whole, fraction) := mantissa.span (· != '.')
  if fraction.isEmpty && power.isEmpty then
    none
  else
    some ⟨negative, ← decimalDigits? whole, ← afterMark? fraction, ← exponent? power⟩

/-- A number too far above zero is refused; one below rounds to minus infinity. -/
def Decimal.inRange (decimal : Decimal) : Bool :=
  decimal.negative ||
    !overflows (decimal.whole ++ decimal.fraction) (decimal.exponent - decimal.fraction.length)

def isFloat (word : List Char) : Bool :=
  let (_, name) := unsigned word
  name == "inf".toList || name == "nan".toList || (decimal? word).any Decimal.inRange

def pair? (first second : Char) (high : Nat) : Option Nat :=
  if first.isDigit && second.isDigit && number 10 [first, second] ≤ high then
    some (number 10 [first, second])
  else
    none

def daysIn (year month : Nat) : Nat :=
  if month = 2 then
    if year % 4 = 0 && (year % 100 ≠ 0 || year % 400 = 0) then 29 else 28
  else if month = 4 || month = 6 || month = 9 || month = 11 then
    30
  else
    31

def isDate : List Char → Bool
  | [a, b, c, d, '-', m, n, '-', x, y] => Option.getD (do
      let century ← pair? a b 99
      let year ← pair? c d 99
      let month ← pair? m n 12
      let day ← pair? x y 31
      some (month ≠ 0 && day ≠ 0 && day ≤ daysIn (century * 100 + year) month)) false
  | _ => false

def isOffset : List Char → Bool
  | ['Z'] | ['z'] => true
  | [sign, a, b, ':', c, d] =>
      (sign == '+' || sign == '-') && (pair? a b 23).isSome && (pair? c d 59).isSome
  | _ => false

def afterSeconds (word : List Char) : List Char :=
  match word with
  | '.' :: digit :: rest => if digit.isDigit then rest.dropWhile Char.isDigit else word
  | _ => word

/-- A time of day, and an offset from world time where one may stand. Sixty seconds are the leap
second. -/
def isTime (offset : Bool) : List Char → Bool
  | a :: b :: ':' :: c :: d :: ':' :: e :: f :: rest =>
      (pair? a b 23).isSome && (pair? c d 59).isSome && (pair? e f 60).isSome &&
        ((afterSeconds rest).isEmpty || (offset && isOffset (afterSeconds rest)))
  | _ => false

def dateLength : Nat := 10

/-- A date, a time, or both with a letter or a blank between them. -/
def isDatetime (word : List Char) : Bool :=
  isTime false word || isDate word ||
    (isDate (word.take dateLength) &&
      match word.drop dateLength with
      | mark :: time => (mark == 'T' || mark == 't' || mark == ' ') && isTime true time
      | [] => false)

def scalar? (word : List Char) : Option Value :=
  if word = "true".toList then
    some (.boolean true)
  else if word = "false".toList then
    some (.boolean false)
  else if isDatetime word then
    some (.datetime (.ofList word))
  else if isFloat word then
    some (.float (.ofList word))
  else
    (integer? word).map .integer

end NetSynth.Toml
