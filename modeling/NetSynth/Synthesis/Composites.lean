import NetSynth.Synthesis.Operators

/-!
The rules for concatenations, selections, conditionals, words of a memory and calls.
-/

namespace NetSynth.Rule

open Build

/-- Parts side by side, built from left to right. The first input of the device is its least
significant, so the parts are connected from right to left, once for each repetition. -/
def concat (node : Node) (parts : List Operand) (repeats : Nat) : Attempt NetId := do
  let ids ← Attempt.all (parts.map (·.build))
  match ids with
  | [] => fail .emptyConcat
  | first :: _ =>
      let leftmost ← net first
      let inputs := (List.replicate repeats (ids.reverse.map NetRef.whole)).flatten
      drive leftmost.scope ⟨node.width, leftmost.domain, node.signed⟩ node.span fun out =>
        return (.concat node.width inputs.length, gatePins out inputs)

def resize (node : Node) (operand : Operand) : Attempt NetId := do
  let id ← operand.build
  let source ← net id
  if source.width < node.width then
    extend id node.width node.signed node.span
  else
    crop id node.width node.span

/-- Where a part-select starts, and the net that tells it if there is one. A base that is known
beforehand has to keep the part inside the vector, and nothing is built for it. -/
def partBase (node : Node) (vectorWidth : Nat) (base : Operand) :
    Attempt (PartBase × Option NetId) := do
  match base.expr.constant?.bind (·.toInt? base.expr.signed) with
  | some offset =>
      if offset < 0 ∨ vectorWidth < offset + node.width then
        Attempt.reject (.partOutside offset node.width vectorWidth) node.span
      else
        return (.fixed offset.toNat, none)
  | none =>
      let id ← base.build
      let source ← net id
      return (.dynamic source.width, some id)

def partSelect (node : Node) (vector base : Operand) : Attempt NetId := do
  let id ← vector.build
  let source ← net id
  let (start, startNet) ← partBase node source.width base
  drive source.scope ⟨node.width, source.domain, node.signed⟩ node.span fun part =>
    return (.partSelect node.width source.width start,
      [⟨.vector, id⟩, ⟨.part, part⟩] ++ startNet.toList.map fun net => ⟨.base, net⟩)

def choose (node : Node) (condition onTrue onFalse : NetId) (trueSpan falseSpan : Span)
    (choice : Net) (domain : Domain) : Build NetId := do
  if choice.width ≠ 1 then
    fail (.wideCondition condition choice.width)
  else
    let t ← fit onTrue node.width trueSpan
    let f ← fit onFalse node.width falseSpan
    let width := (← net t).width
    drive choice.scope ⟨width, domain, node.signed⟩ node.span fun out =>
      return (.mux width 2 1,
        [⟨.select, condition⟩, ⟨.data 0, f⟩, ⟨.data 1, t⟩, ⟨.result, out⟩])

def conditional (node : Node) (condition whenTrue whenFalse : Operand) : Attempt NetId := do
  let (c, t, f) ← Attempt.both condition.build (Attempt.both whenTrue.build whenFalse.build)
  let onTrue ← net t
  let onFalse ← net f
  if onTrue.domain ≠ onFalse.domain then
    Attempt.reject (.branchDomains onTrue.domain onFalse.domain whenTrue.expr.span
      whenFalse.expr.span) node.span
  else if onTrue.domain = .untyped then
    Attempt.reject .untypedBranches node.span
  else
    choose node c t f whenTrue.expr.span whenFalse.expr.span (← net c) onTrue.domain

def memoryOf (id : NetId) : Build (Net × MemoryWords) := do
  match (← get).net? id with
  | none => fail (.unknownNet id)
  | some found =>
      match found.memory with
      | none => fail (.notMemory id)
      | some words => return (found, words)

def wordAt (node : Node) (memory address : NetId) (found : Net) (words : MemoryWords) :
    Build NetId := do
  let width := (← net address).width
  drive found.scope (.vector found.width found.signed) node.span fun out =>
    return (.memoryRead memory words.words.size found.width width,
      [⟨.address, address⟩, ⟨.result, out⟩])

/-- A word of a memory. A definite index names the net of its word; any other index, also one with
unknown bits, is an address for a device. -/
def word (node : Node) (memory : NetId) (index : Operand) : Attempt NetId := do
  let (found, words) ← memoryOf memory
  match index.expr.constant?.filter Bits.isDefinite with
  | some value =>
      match (value.toInt? index.expr.signed).bind words.word? with
      | some id => return id
      | none => fail (.noWord value memory)
  | none => wordAt node memory (← index.build) found words

def fitArguments : List (NetId × Port × Operand) → Build (List NetId)
  | [] => return []
  | (id, port, argument) :: rest => do
      let fitted ← fit id port.width argument.expr.span
      return fitted :: (← fitArguments rest)

/-- The device of a call, with arguments that are built already. The result stands in the scope of
the call. -/
def callWith (node : Node) (signature : FunctionSignature) (scope : ScopeId)
    (arguments : List Operand) (ids : List NetId) : Build NetId :=
  drive scope signature.result.toValueType node.span fun out => do
    let fitted ← fitArguments (ids.zip (signature.ports.zip arguments))
    return (.call signature.id signature.result.width (signature.ports.map (·.width)),
      ⟨.result, out⟩ :: fitted.mapIdx fun position id => ⟨.argument position, .whole id⟩)

def functionOf (id : FunctionId) : Build (FunctionSignature × String) := do
  match (← get).function? id with
  | none => fail (.unknownFunction id)
  | some signature => return (signature, ← nameText signature.result.name)

/-- A call of a function. An argument that fails is reported a second time with its position. -/
def call (node : Node) (function : FunctionId) (scope : ScopeId) (arguments : List Operand) :
    Attempt NetId := do
  let (signature, name) ← functionOf function
  if arguments.length ≠ signature.ports.length then
    fail (.argumentCount name arguments.length signature.ports.length)
  else
    let ids ← Attempt.all (arguments.mapIdx fun position argument =>
      argument.build.orReport (.unbuiltArgument position name) argument.expr.span)
    callWith node signature scope arguments ids

end NetSynth.Rule
