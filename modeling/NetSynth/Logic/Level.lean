/-!
The four values of one wire bit, with their letters and their two-bit codes.
-/

namespace NetSynth

/-- The value of one bit: driven low, driven high, unknown, or not driven. -/
inductive Level where
  | zero
  | one
  | unknown
  | floating
  deriving DecidableEq

namespace Level

/-- The letters `x` and `z` are read in either case. -/
def ofChar? : Char → Option Level
  | '0' => some .zero
  | '1' => some .one
  | 'x' | 'X' => some .unknown
  | 'z' | 'Z' => some .floating
  | _ => none

def toChar : Level → Char
  | .zero => '0'
  | .one => '1'
  | .unknown => 'x'
  | .floating => 'z'

def isDefinite : Level → Bool
  | .zero | .one => true
  | .unknown | .floating => false

def code : Level → BitVec 2
  | .zero => 0
  | .one => 1
  | .unknown => 2
  | .floating => 3

def ofCode (code : BitVec 2) : Level :=
  if code = 0 then .zero else if code = 1 then .one else if code = 2 then .unknown else .floating

@[simp] theorem ofCode_code (level : Level) : ofCode level.code = level := by
  cases level <;> rfl

@[simp] theorem code_ofCode (code : BitVec 2) : (ofCode code).code = code := by
  revert code
  decide

@[simp] theorem ofChar?_toChar (level : Level) : ofChar? level.toChar = some level := by
  cases level <;> rfl

/-- The number that a row of definite levels writes, least significant level first. -/
def value? : List Level → Option Nat
  | [] => some 0
  | .zero :: rest => (value? rest).map (2 * ·)
  | .one :: rest => (value? rest).map (2 * · + 1)
  | .unknown :: _ | .floating :: _ => none

end Level

end NetSynth
