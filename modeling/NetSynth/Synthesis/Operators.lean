import NetSynth.Settings.Basic
import NetSynth.Synthesis.Attempt

/-!
The rules for operators. Each builds the operands, checks what their nets turn out to be, and ends
with one device whose output is the result.
-/

namespace NetSynth.Rule

open Build

def sum (node : Node) (op : Direction) (left right : Operand) : Attempt NetId := do
  let args ← OperandPair.build left right
  let width := if args.real then 1 else node.width
  let l ← net args.left
  let r ← net args.right
  if width < l.width ∨ width < r.width then
    fail (.narrowSum op width l.width r.width)
  else
    let a ← pad args.left width left.expr.span
    let b ← pad args.right width right.expr.span
    drive l.scope ⟨width, l.domain, node.signed⟩ node.span fun out =>
      return (.addSub op width, [⟨.dataA, a⟩, ⟨.dataB, b⟩, ⟨.result, out⟩])

def bitwise (node : Node) (op : Bitwise) (left right : Operand) : Attempt NetId := do
  let (a, b) ← Attempt.both left.build right.build
  let l ← net a
  let r ← net b
  if l.domain.isReal || r.domain.isReal then
    Attempt.reject (.realBitwise op) node.span
  else if l.width ≠ r.width then
    Attempt.reject (.bitwiseWidths op l.width r.width left.expr.span right.expr.span) node.span
  else
    drive l.scope (.vector l.width node.signed) node.span fun out =>
      return (.logic op.gate l.width 2, [⟨.output, out⟩, ⟨.input 0, a⟩, ⟨.input 1, b⟩])

/-- The device that decides a comparison: a gate for the equality of single bits, and a comparator
otherwise. -/
def comparer (op : Comparison) (pair : OperandPair) (width : Nat) (signed : Bool)
    (a b out : NetId) : DeviceKind × List Connection :=
  match if !pair.real && width == 1 then op.bitGate? else none with
  | some gate => (.logic gate 1 2, [⟨.output, out⟩, ⟨.input 0, a⟩, ⟨.input 1, b⟩])
  | none =>
      (.compare op.relation width signed,
        [⟨.dataA, a⟩, ⟨.dataB, b⟩, ⟨.related op.relation, out⟩])

/-- Comparisons at the width of the wider operand, signed if both operands are. -/
def compare (node : Node) (op : Comparison) (left right : Operand) : Attempt NetId := do
  let args ← OperandPair.build left right
  if args.real && op.isCase then
    Attempt.reject (.realCaseEquality op) node.span
  else
    let l ← net args.left
    let r ← net args.right
    let width := if args.real then 1 else max l.width r.width
    let a ← pad args.left width left.expr.span
    let b ← pad args.right width right.expr.span
    drive l.scope .bit node.span fun out =>
      return comparer op args width (left.expr.signed && right.expr.signed) a b out

def arithmetic (generation : Generation) (node : Node) (op : Arithmetic) (left right : Operand) :
    Attempt NetId := do
  let args ← OperandPair.build left right
  if op = .modulo && args.real && !generation.allowsRealModulus then
    Attempt.reject .realModulus node.span
  else
    let l ← net args.left
    let r ← net args.right
    let width := if args.real then 1 else node.width
    drive l.scope ⟨width, l.domain, node.signed⟩ node.span fun out =>
      return (.arithmetic op width l.width r.width node.signed,
        [⟨.dataA, args.left⟩, ⟨.dataB, args.right⟩, ⟨.result, out⟩])

def bitRefs (id : NetId) (width : Nat) : List NetRef := (List.range width).map (.bit id)

def gatePins (out : NetId) (inputs : List NetRef) : List Connection :=
  ⟨.output, out⟩ :: inputs.mapIdx fun index ref => ⟨.input index, ref⟩

/-- What goes into the gate of an operator on truth values. A disjunction takes every bit of its
operands, a conjunction takes operands of one bit. -/
def logicalInputs (op : Logical) (left right : NetId) (leftWidth rightWidth : Nat) :
    Build (List NetRef) :=
  match op with
  | .or => return bitRefs left leftWidth ++ bitRefs right rightWidth
  | .and =>
      if leftWidth = 1 ∧ rightWidth = 1 then return [left, right]
      else fail (.wideConjunction leftWidth rightWidth)

def logical (node : Node) (op : Logical) (left right : Operand) : Attempt NetId := do
  let (a, b) ← Attempt.both left.build right.build
  let l ← net a
  let r ← net b
  if l.domain.isReal || r.domain.isReal then
    Attempt.reject (.realLogical op) node.span
  else
    drive l.scope .bit node.span fun out => do
      let inputs ← logicalInputs op a b l.width r.width
      return (.logic op.gate 1 inputs.length, gatePins out inputs)

/-- The amount of a shift that is known beforehand. A shift that repeats the sign is left to a
device in any case. -/
def fixedAmount? (node : Node) (op : Shift) (amount : Expr) : Option Nat :=
  if op = .arithmeticRight && node.signed then none else amount.constant?.bind Bits.value?

def shiftBy (node : Node) (op : Shift) (amount : Nat) (id : NetId) (value : Net) : Build NetId := do
  if amount = 0 then
    return id
  else if amount ≥ node.width then
    constant value.scope (.zeros node.width) node.signed node.span
  else
    let kept := node.width - amount
    let offset := if op.isRight then amount else 0
    let zeros ← constant value.scope (.zeros amount) false node.span
    let part ← drive value.scope (.vector kept value.signed) node.span fun part =>
      return (.partSelect kept node.width (.fixed offset), [⟨.vector, id⟩, ⟨.part, part⟩])
    let (low, high) := if op.isRight then (part, zeros) else (zeros, part)
    drive value.scope (.vector node.width node.signed) node.span fun out =>
      return (.concat node.width 2, [⟨.output, out⟩, ⟨.input 0, low⟩, ⟨.input 1, high⟩])

def shiftByNet (node : Node) (op : Shift) (amount id : NetId) (value : Net) : Build NetId := do
  let distance ← net amount
  drive value.scope (.vector node.width node.signed) node.span fun out =>
    return (.shift node.width distance.width op.isRight (op = .arithmeticRight),
      [⟨.data 0, id⟩, ⟨.distance, amount⟩, ⟨.result, out⟩])

def shift (node : Node) (op : Shift) (left right : Operand) : Attempt NetId := do
  let id ← left.build
  let value ← net id
  if value.domain.isReal then
    Attempt.reject (.realShift op) node.span
  else if value.width ≠ node.width then
    fail (.shiftWidth op value.width node.width)
  else
    match fixedAmount? node op right.expr with
    | some amount => shiftBy node op amount id value
    | none => shiftByNet node op (← right.build) id value

def binary (generation : Generation) (node : Node) (op : BinaryOp) (left right : Operand) :
    Attempt NetId :=
  match op with
  | .sum op => sum node op left right
  | .bitwise op => bitwise node op left right
  | .compare op => compare node op left right
  | .arithmetic op => arithmetic generation node op left right
  | .logical op => logical node op left right
  | .shift op => shift node op left right

def invert (node : Node) (id : NetId) (input : Net) : Build NetId :=
  drive input.scope (.vector input.width node.signed) node.span fun out =>
    return (.logic .not input.width 1, [⟨.output, out⟩, ⟨.input 0, id⟩])

def fold (node : Node) (mode : Reduction) (id : NetId) (input : Net) : Build NetId :=
  drive input.scope .bit node.span fun out =>
    return (.reduce mode input.width, [⟨.input 0, id⟩, ⟨.output, out⟩])

/-- The reduction that a device performs for an operator. The structural form of `~&` is `~^`. -/
def structural : Reduction → Reduction
  | .nand => .xnor
  | op => op

/-- Builds the operand and, unless it is real, what the operator makes of it. -/
def onVector (node : Node) (op : UnaryOp) (operand : Operand) (finish : NetId → Net → Build NetId) :
    Attempt NetId := do
  let id ← operand.build
  let input ← net id
  if input.domain.isReal then
    Attempt.reject (.realUnary op) node.span
  else
    finish id input

/-- Operators on one vector. Negation has no structural form, so its operand is not built. -/
def unary (node : Node) (op : UnaryOp) (operand : Operand) : Attempt NetId :=
  match op with
  | .negate => Attempt.reject (.noStructure "arithmetic negation") node.span
  | .invert => onVector node op operand (invert node)
  | .reduce mode => onVector node op operand (fold node (structural mode))
  | .logicalNot => onVector node op operand (fold node .nor)

end NetSynth.Rule
