import NetSynth.Logic.Bits
import NetSynth.Netlist.Net

/-!
Expressions in which every node already declares its width, domain and sign.
-/

namespace NetSynth

/-- What a node declares: the type of its value, and where it stands in the source. -/
structure Node extends ValueType where
  span : Span
  deriving DecidableEq

inductive Expr where
  | constant (node : Node) (value : Bits)
  | real (node : Node) (value : Float)
  | unary (node : Node) (op : UnaryOp) (operand : Expr)
  | binary (node : Node) (op : BinaryOp) (left right : Expr)
  /-- The parts side by side, the first one leftmost, and the whole row several times over. -/
  | concat (node : Node) (parts : List Expr) (repeats : Nat)
  /-- The operand at the declared width. -/
  | resize (node : Node) (operand : Expr)
  /-- As many bits as declared, from the base upwards. -/
  | partSelect (node : Node) (vector base : Expr)
  | conditional (node : Node) (condition whenTrue whenFalse : Expr)
  | signal (node : Node) (net : NetId)
  /-- A word of a memory. -/
  | word (node : Node) (memory : NetId) (index : Expr)
  | systemCall (node : Node) (name : String) (arguments : List Expr)
  | call (node : Node) (function : FunctionId) (scope : ScopeId) (arguments : List Expr)
  | parameter (node : Node) (name : String)
  | scopeRef (node : Node) (scope : ScopeId)
  | event (node : Node)

namespace Expr

def node : Expr → Node
  | constant node _ | real node _ | unary node _ _ | binary node _ _ _ | concat node _ _
  | resize node _ | partSelect node _ _ | conditional node _ _ _ | signal node _ | word node _ _
  | systemCall node _ _ | call node _ _ _ | parameter node _ | scopeRef node _ | event node => node

/-- The value of a constant vector. -/
def constant? : Expr → Option Bits
  | constant _ value => some value
  | _ => none

def isReal (expr : Expr) : Bool := expr.node.domain.isReal

def signed (expr : Expr) : Bool := expr.node.signed

def span (expr : Expr) : Span := expr.node.span

end Expr

end NetSynth
