import NetSynth.Proofs.Steps
import NetSynth.Synthesis.Expr

/-! The typing rules for expressions. A well-typed expression declares at every node what its parts
and the design say of it. -/
namespace NetSynth

/-- A single real value if one of the operands is real, and bits otherwise. -/
def Node.Arithmetic (node : Node) (left right : Expr) : Prop :=
  if left.isReal || right.isReal then node.domain = .real ∧ node.width = 1
  else node.domain = .logic

namespace Expr

def IsNumber (expr : Expr) : Prop := expr.node.domain ≠ .untyped

def IndexInside (words : MemoryWords) (index : Expr) : Prop :=
  ∀ value, index.constant? = some value → value.isDefinite = true → ∃ integer,
    value.toInt? index.signed = some integer ∧ min words.first words.last ≤ integer ∧
      integer ≤ max words.first words.last

/-- What each node has to declare. Operators that are refused before they look at an operand ask
nothing of it. -/
inductive WellTyped (design : Design) : Expr → Prop
  | constant {node : Node} {value : Bits} (width : node.width = value.width)
      (domain : node.domain = .logic) : WellTyped design (constant node value)
  | real {node : Node} {value : Float} (type : node.toValueType = ⟨1, .real, false⟩) :
      WellTyped design (real node value)
  | signal {node : Node} {id : NetId} {net : Net} (known : design.net? id = some net)
      (place : (design.scope? net.scope).isSome) (type : node.toValueType = net.toValueType) :
      WellTyped design (signal node id)
  | word {node : Node} {memory : NetId} {index : Expr} {net : Net} {words : MemoryWords}
      (known : design.net? memory = some net) (named : net.memory = some words)
      (place : (design.scope? net.scope).isSome)
      (type : node.toValueType = .vector net.width net.signed)
      (onIndex : WellTyped design index) (vector : index.isReal = false)
      (inside : index.IndexInside words) : WellTyped design (word node memory index)
  | sum {node : Node} {op : Direction} {left right : Expr} (onLeft : WellTyped design left)
      (onRight : WellTyped design right) (numbers : left.IsNumber ∧ right.IsNumber)
      (type : node.Arithmetic left right)
      (wide : left.isReal = false → right.isReal = false →
        left.node.width ≤ node.width ∧ right.node.width ≤ node.width) :
      WellTyped design (binary node (.sum op) left right)
  | arithmetic {node : Node} {op : Arithmetic} {left right : Expr}
      (onLeft : WellTyped design left) (onRight : WellTyped design right)
      (numbers : left.IsNumber ∧ right.IsNumber) (type : node.Arithmetic left right) :
      WellTyped design (binary node (.arithmetic op) left right)
  | bitwise {node : Node} {op : Bitwise} {left right : Expr} (onLeft : WellTyped design left)
      (onRight : WellTyped design right) (domain : node.domain = .logic)
      (widths : left.isReal = false → right.isReal = false →
        left.node.width = node.width ∧ right.node.width = node.width) :
      WellTyped design (binary node (.bitwise op) left right)
  | compare {node : Node} {op : Comparison} {left right : Expr} (onLeft : WellTyped design left)
      (onRight : WellTyped design right) (numbers : left.IsNumber ∧ right.IsNumber)
      (type : node.toValueType = .bit) : WellTyped design (binary node (.compare op) left right)
  | logical {node : Node} {op : Logical} {left right : Expr} (onLeft : WellTyped design left)
      (onRight : WellTyped design right) (type : node.toValueType = .bit)
      (single : op = .and → left.node.width = 1 ∧ right.node.width = 1) :
      WellTyped design (binary node (.logical op) left right)
  | shift {node : Node} {op : Shift} {left right : Expr} (onLeft : WellTyped design left)
      (onRight : WellTyped design right) (number : left.IsNumber) (domain : node.domain = .logic)
      (width : left.isReal = false → left.node.width = node.width)
      (vector : right.isReal = false) : WellTyped design (binary node (.shift op) left right)
  | negate {node : Node} {operand : Expr} : WellTyped design (unary node .negate operand)
  | invert {node : Node} {operand : Expr} (onOperand : WellTyped design operand)
      (domain : node.domain = .logic)
      (width : operand.isReal = false → operand.node.width = node.width) :
      WellTyped design (unary node .invert operand)
  | reduce {node : Node} {op : Reduction} {operand : Expr} (onOperand : WellTyped design operand)
      (type : node.toValueType = .bit) : WellTyped design (unary node (.reduce op) operand)
  | logicalNot {node : Node} {operand : Expr} (onOperand : WellTyped design operand)
      (type : node.toValueType = .bit) : WellTyped design (unary node .logicalNot operand)
  | concat {node : Node} {parts : List Expr} {repeats : Nat}
      (onParts : ∀ part ∈ parts, WellTyped design part) (some : parts ≠ [])
      (vectors : ∀ part ∈ parts, part.node.domain = .logic) (domain : node.domain = .logic)
      (width : node.width = repeats * (parts.map (·.node.width)).sum) :
      WellTyped design (concat node parts repeats)
  | resize {node : Node} {operand : Expr} (onOperand : WellTyped design operand)
      (vector : operand.node.domain = .logic) (domain : node.domain = .logic) :
      WellTyped design (resize node operand)
  | partSelect {node : Node} {vector base : Expr} (onVector : WellTyped design vector)
      (onBase : WellTyped design base) (bits : vector.node.domain = .logic)
      (number : base.isReal = false) (domain : node.domain = .logic) :
      WellTyped design (partSelect node vector base)
  | conditional {node : Node} {condition whenTrue whenFalse : Expr}
      (onCondition : WellTyped design condition) (onTrue : WellTyped design whenTrue)
      (onFalse : WellTyped design whenFalse) (vector : condition.isReal = false)
      (single : condition.node.width = 1)
      (type : whenTrue.node.domain = whenFalse.node.domain → whenTrue.IsNumber →
        node.domain = whenTrue.node.domain ∧ (node.domain = .real → node.width = 1)) :
      WellTyped design (conditional node condition whenTrue whenFalse)
  | call {node : Node} {function : FunctionId} {scope : ScopeId} {arguments : List Expr}
      {signature : FunctionSignature} (known : design.function? function = some signature)
      (named : design.NamesFunction function) (place : (design.scope? scope).isSome)
      (arity : arguments.length = signature.ports.length)
      (type : node.toValueType = signature.result.toValueType)
      (scalar : node.domain = .real → node.width = 1)
      (onArguments : ∀ argument ∈ arguments, WellTyped design argument)
      (ports : ∀ argument port, (argument, port) ∈ arguments.zip signature.ports →
        argument.isReal = true → port.width = 1) :
      WellTyped design (call node function scope arguments)
  | systemCall {node : Node} {name : String} {arguments : List Expr} :
      WellTyped design (systemCall node name arguments)
  | parameter {node : Node} {name : String} : WellTyped design (parameter node name)
  | scopeRef {node : Node} {scope : ScopeId} : WellTyped design (scopeRef node scope)
  | event {node : Node} : WellTyped design (event node)

/-- Whether the net of an expression is signed. That is what the node declares, but for the nodes
that hand on the net of their operand. -/
def netSigned : Expr → Bool
  | resize node operand =>
      if operand.node.width < node.width then node.signed else netSigned operand
  | binary node (.shift op) left right =>
      if Rule.fixedAmount? node op right = some 0 then netSigned left else node.signed
  | expr => expr.node.signed

/-- The type of the net that an expression becomes. -/
def netType (expr : Expr) : ValueType := ⟨expr.node.width, expr.node.domain, expr.netSigned⟩

@[simp] theorem netType_domain (expr : Expr) : expr.netType.domain = expr.node.domain := rfl

@[simp] theorem netType_signed (expr : Expr) : expr.netType.signed = expr.netSigned := rfl

/-- The nodes that hand on the net of their operand declare its sign. -/
def KeepsSign : Expr → Prop
  | resize node operand =>
      operand.node.width < node.width ∨ node.signed = operand.node.signed ∧ KeepsSign operand
  | binary node (.shift op) left right =>
      Rule.fixedAmount? node op right = some 0 → node.signed = left.node.signed ∧ KeepsSign left
  | _ => True

theorem KeepsSign.netType_eq {expr : Expr} (keeps : expr.KeepsSign) :
    expr.netType = expr.node.toValueType := by
  suffices same : expr.netSigned = expr.node.signed by rw [netType, same]
  fun_induction netSigned expr with
  | case1 => rfl
  | case2 node operand narrow ih =>
    obtain wide | ⟨same, keeps⟩ := keeps
    · exact absurd wide narrow
    · exact (ih keeps).trans same.symm
  | case3 node op left right fixed ih =>
    obtain ⟨same, keeps⟩ := keeps fixed
    exact (ih keeps).trans same.symm
  | case4 => rfl
  | case5 => rfl

theorem netType_resize (node : Node) (operand : Expr) : (resize node operand).netType =
    ⟨node.width, node.domain,
      if operand.node.width < node.width then node.signed else operand.netSigned⟩ := by
  rw [netType, netSigned]
  rfl

theorem netType_shift (node : Node) (op : Shift) (left right : Expr) :
    (binary node (.shift op) left right).netType = ⟨node.width, node.domain,
      if Rule.fixedAmount? node op right = some 0 then left.netSigned else node.signed⟩ := by
  rw [netType, netSigned]
  rfl

end Expr
end NetSynth
