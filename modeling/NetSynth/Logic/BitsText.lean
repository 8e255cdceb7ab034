import NetSynth.Logic.Bits

/-!
The written form of a bit vector: its width, a mark, and one letter a level with the most
significant level first. Reading takes the letters alone.
-/

namespace NetSynth.Bits

/-- Reads one letter a level; the leftmost is the most significant. A text too long for a width of
thirty-two bits is refused. -/
def parse? (text : String) : Option Bits :=
  if text.length < UInt32.size then
    (text.toList.mapM Level.ofChar?).map fun levels => ofLevels levels.reverse
  else none

def digits (bits : Bits) : String := .ofList (bits.levels.reverse.map Level.toChar)

def text (bits : Bits) : String := toString bits.width ++ "'b" ++ bits.digits

end NetSynth.Bits
