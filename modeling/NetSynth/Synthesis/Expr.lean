import NetSynth.Synthesis.Composites

/-!
Synthesis of one expression: the net that carries its value, or a failure with a report. Every rule
gets the parts of an expression as operands and decides itself which of them it builds.
-/

namespace NetSynth.Expr

mutual

def build (generation : Generation) : Expr → Attempt NetId
  | constant node value => Build.constant .root value node.signed node.span
  | real node value => Build.literal value node.span
  | unary node op operand => Rule.unary node op ⟨operand, build generation operand⟩
  | binary node op left right =>
      Rule.binary generation node op ⟨left, build generation left⟩ ⟨right, build generation right⟩
  | concat node parts repeats => Rule.concat node (operands generation parts) repeats
  | resize node operand => Rule.resize node ⟨operand, build generation operand⟩
  | partSelect node vector base =>
      Rule.partSelect node ⟨vector, build generation vector⟩ ⟨base, build generation base⟩
  | conditional node condition whenTrue whenFalse =>
      Rule.conditional node ⟨condition, build generation condition⟩
        ⟨whenTrue, build generation whenTrue⟩ ⟨whenFalse, build generation whenFalse⟩
  | signal _ net => return net
  | word node memory index => Rule.word node memory ⟨index, build generation index⟩
  | systemCall node name _ => Attempt.reject (.systemFunction name) node.span
  | call node function scope arguments =>
      Rule.call node function scope (operands generation arguments)
  | parameter node name =>
      Attempt.reject (.noStructure s!"parameter reference {Problem.quoted name}") node.span
  | scopeRef node _ => Attempt.reject (.noStructure "scope reference") node.span
  | event node => Attempt.reject (.noStructure "event expression") node.span

def operands (generation : Generation) : List Expr → List Operand
  | [] => []
  | first :: rest => ⟨first, build generation first⟩ :: operands generation rest

end

end NetSynth.Expr
