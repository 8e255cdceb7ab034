import NetSynth.Logic.Integer
import NetSynth.Logic.Level

/-!
Constant bit vectors over four values, packed thirty-two levels to a word. Index 0 is the least
significant bit. `get` and `set` refuse an index that is not below the width; `level` reads any
index, and every vector made here is `zero` beyond its width.
-/

namespace NetSynth

/-- A row of `width` levels, two bits each, in words of sixty-four bits. -/
structure Bits where
  width : Nat
  words : Array (BitVec 64)
  deriving DecidableEq

namespace Bits

def levelsPerWord : Nat := 32

def wordCount (width : Nat) : Nat := (width + (levelsPerWord - 1)) / levelsPerWord

def zeros (width : Nat) : Bits := ⟨width, Array.replicate (wordCount width) 0⟩

/-- The level in one of the thirty-two slots of a word. -/
def slot (word : BitVec 64) (index : Nat) : Level := .ofCode (word.extractLsb' (2 * index) 2)

def withSlot (word : BitVec 64) (index : Nat) (level : Level) : BitVec 64 :=
  (word &&& ~~~((0b11#64) <<< (2 * index))) ||| (level.code.setWidth 64 <<< (2 * index))

def level (bits : Bits) (index : Nat) : Level :=
  slot (bits.words.getD (index / levelsPerWord) 0) (index % levelsPerWord)

def withLevel (bits : Bits) (index : Nat) (level : Level) : Bits :=
  { bits with words := bits.words.modify (index / levelsPerWord) fun word =>
      withSlot word (index % levelsPerWord) level }

structure OutOfBounds where
  index : Nat
  width : Nat
  deriving DecidableEq

def OutOfBounds.message (fault : OutOfBounds) : String :=
  s!"index {fault.index} out of bounds for width {fault.width}"

def get (bits : Bits) (index : Nat) : Except OutOfBounds Level :=
  if index < bits.width then .ok (bits.level index) else .error ⟨index, bits.width⟩

def set (bits : Bits) (index : Nat) (level : Level) : Except OutOfBounds Bits :=
  if index < bits.width then .ok (bits.withLevel index level) else .error ⟨index, bits.width⟩

def levels (bits : Bits) : List Level := (List.range bits.width).map bits.level

def ofLevels (levels : List Level) : Bits :=
  levels.zipIdx.foldl (fun bits (level, index) => bits.withLevel index level) (zeros levels.length)

/-- The low `width` bits of a sixty-four-bit number; bits above the sixty-fourth are zero. -/
def ofNat (value width : Nat) : Bits :=
  (List.range (min width 64)).foldl
    (fun bits index => if value.testBit index then bits.withLevel index .one else bits)
    (zeros width)

def isDefinite (bits : Bits) : Bool := bits.levels.all Level.isDefinite

def isZero (bits : Bits) : Bool := bits.levels.all (· == .zero)

def top? (bits : Bits) : Option Level :=
  if bits.width = 0 then none else some (bits.level (bits.width - 1))

/-- The unsigned value of a definite vector of any width. -/
def value? (bits : Bits) : Option Nat := Level.value? bits.levels

def toNat? (bits : Bits) : Option Nat :=
  if bits.width ≤ 64 then bits.value? else none

/-- The value of a definite vector of at most sixty-four bits, where it fits a sixty-four-bit
integer. A signed vector is read in two's complement. -/
def toInt? (bits : Bits) (signed : Bool) : Option Int := do
  let raw ← bits.toNat?
  let value : Int :=
    if signed && bits.top? == some .one then raw - (1 <<< bits.width : Nat) else raw
  if FitsInt64 value then some value else none

/-- The value as a real number. Levels other than `one` count as zero, and the top level of a signed
vector weighs negatively. -/
def toReal (bits : Bits) (signed : Bool) : Float :=
  let (sum, weight) := bits.levels.foldl
    (fun (sum, weight) level => (if level = .one then sum + weight else sum, weight * 2))
    ((0, 1) : Float × Float)
  if signed && bits.top? == some .one then sum - weight else sum

end Bits

end NetSynth
