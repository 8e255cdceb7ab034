import NetSynth.Operator

/-!
Names of device pins and their directions.
-/

namespace NetSynth

inductive PinName where
  | dataA
  | dataB
  | result
  | select
  | data (index : Nat)
  | distance
  | address
  | base
  | vector
  | part
  | input (index : Nat)
  | output
  | argument (index : Nat)
  | related (relation : Relation)
  deriving DecidableEq

inductive PinDirection where
  | input
  | output
  deriving DecidableEq

namespace PinName

def text : PinName → String
  | .dataA => "DataA"
  | .dataB => "DataB"
  | .result => "Result"
  | .select => "Sel"
  | .data index => s!"Data{index}"
  | .distance => "Distance"
  | .address => "Address"
  | .base => "Base"
  | .vector => "Vector"
  | .part => "Part"
  | .input index => s!"I{index}"
  | .output => "O"
  | .argument index => s!"Arg{index}"
  | .related .greater => "AGB"
  | .related .greaterEqual => "AGEB"
  | .related .equal => "AEB"
  | .related .notEqual => "ANEB"
  | .related .less => "ALB"
  | .related .lessEqual => "ALEB"

/-- The direction is the same on every device that has the pin. -/
def direction : PinName → PinDirection
  | .result | .output | .part | .related _ => .output
  | _ => .input

/-- Whether the pin is one of the numbered inputs of a gate or a concatenation. -/
def isInput : PinName → Bool
  | .input _ => true
  | _ => false

def listText (pins : List PinName) : String :=
  "[" ++ ", ".intercalate (pins.map text) ++ "]"

end PinName

end NetSynth
