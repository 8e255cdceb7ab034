/-!
The functions that expressions and devices compute, and the spelling of operators in source text.
-/

namespace NetSynth

inductive Direction where
  | add
  | sub
  deriving DecidableEq

def Direction.symbol : Direction → String
  | .add => "+"
  | .sub => "-"

/-- The functions of a gate; `not` has one input. -/
inductive Gate where
  | and
  | nand
  | or
  | nor
  | xor
  | xnor
  | not
  deriving DecidableEq

inductive Bitwise where
  | and
  | nand
  | or
  | nor
  | xor
  | xnor
  deriving DecidableEq

namespace Bitwise

def symbol : Bitwise → String
  | .and => "&"
  | .nand => "~&"
  | .or => "|"
  | .nor => "~|"
  | .xor => "^"
  | .xnor => "~^"

def gate : Bitwise → Gate
  | .and => .and
  | .nand => .nand
  | .or => .or
  | .nor => .nor
  | .xor => .xor
  | .xnor => .xnor

end Bitwise

inductive Reduction where
  | and
  | or
  | xor
  | nand
  | nor
  | xnor
  deriving DecidableEq

def Reduction.symbol : Reduction → String
  | .and => "&"
  | .or => "|"
  | .xor => "^"
  | .nand => "~&"
  | .nor => "~|"
  | .xnor => "~^"

inductive Relation where
  | greater
  | greaterEqual
  | equal
  | notEqual
  | less
  | lessEqual
  deriving DecidableEq

/-- Comparison operators. The case forms also compare unknown and floating bits. -/
inductive Comparison where
  | less
  | greater
  | lessEqual
  | greaterEqual
  | equal
  | notEqual
  | caseEqual
  | caseNotEqual
  deriving DecidableEq

namespace Comparison

def symbol : Comparison → String
  | .less => "<"
  | .greater => ">"
  | .lessEqual => "<="
  | .greaterEqual => ">="
  | .equal => "=="
  | .notEqual => "!="
  | .caseEqual => "==="
  | .caseNotEqual => "!=="

def relation : Comparison → Relation
  | .less => .less
  | .greater => .greater
  | .lessEqual => .lessEqual
  | .greaterEqual => .greaterEqual
  | .equal | .caseEqual => .equal
  | .notEqual | .caseNotEqual => .notEqual

/-- The gate that compares two single bits, where one gate is enough. -/
def bitGate? : Comparison → Option Gate
  | .equal | .caseEqual => some .xnor
  | .notEqual | .caseNotEqual => some .xor
  | .less | .greater | .lessEqual | .greaterEqual => none

def isCase : Comparison → Bool
  | .caseEqual | .caseNotEqual => true
  | _ => false

end Comparison

/-- Operators whose operands keep their own widths. -/
inductive Arithmetic where
  | pow
  | mult
  | divide
  | modulo
  deriving DecidableEq

def Arithmetic.symbol : Arithmetic → String
  | .pow => "**"
  | .mult => "*"
  | .divide => "/"
  | .modulo => "%"

inductive Logical where
  | and
  | or
  deriving DecidableEq

def Logical.symbol : Logical → String
  | .and => "&&"
  | .or => "||"

def Logical.gate : Logical → Gate
  | .and => .and
  | .or => .or

/-- Shifts; an arithmetic right shift of a signed value repeats the sign. -/
inductive Shift where
  | left
  | right
  | arithmeticRight
  deriving DecidableEq

namespace Shift

def symbol : Shift → String
  | .left => "<<"
  | .right => ">>"
  | .arithmeticRight => ">>>"

def isRight : Shift → Bool
  | .left => false
  | .right | .arithmeticRight => true

end Shift

/-- Operators with two operands, by the rule that builds them. -/
inductive BinaryOp where
  | sum (op : Direction)
  | bitwise (op : Bitwise)
  | compare (op : Comparison)
  | arithmetic (op : Arithmetic)
  | logical (op : Logical)
  | shift (op : Shift)
  deriving DecidableEq

def BinaryOp.symbol : BinaryOp → String
  | .sum op => op.symbol
  | .bitwise op => op.symbol
  | .compare op => op.symbol
  | .arithmetic op => op.symbol
  | .logical op => op.symbol
  | .shift op => op.symbol

inductive UnaryOp where
  | invert
  | negate
  | reduce (op : Reduction)
  | logicalNot
  deriving DecidableEq

def UnaryOp.symbol : UnaryOp → String
  | .invert => "~"
  | .negate => "-"
  | .reduce op => op.symbol
  | .logicalNot => "!"

end NetSynth
