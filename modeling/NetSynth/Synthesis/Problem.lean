import NetSynth.Diagnostic.Basic
import NetSynth.Netlist.Net
import NetSynth.Operator

/-!
What can be wrong with an expression, and the message that reports it. Codes `E301` to `E307` are
mistakes of the user, `S301` to `S303` stand for legal source without a structural form yet, and
`I301` to `I304` for input that an earlier stage should have refused.
-/

namespace NetSynth

inductive Problem where
  | realBitwise (op : Bitwise)
  | realCaseEquality (op : Comparison)
  | realModulus
  | branchDomains (whenTrue whenFalse : Domain) (trueSpan falseSpan : Span)
  | realUnary (op : UnaryOp)
  | realShift (op : Shift)
  | unbuiltArgument (position : Nat) (function : String)
  | bitsAsReal
  | systemFunction (name : String)
  | realLogical (op : Logical)
  | noStructure (construct : String)
  | bitwiseWidths (op : Bitwise) (left right : Nat) (leftSpan rightSpan : Span)
  | untypedBranches
  | partOutside (offset : Int) (width vectorWidth : Nat)
  deriving DecidableEq

namespace Problem

def code : Problem → Code
  | .realBitwise _ => ⟨.error, 301⟩
  | .realCaseEquality _ => ⟨.error, 302⟩
  | .realModulus => ⟨.error, 303⟩
  | .branchDomains .. => ⟨.error, 304⟩
  | .realUnary _ => ⟨.error, 305⟩
  | .realShift _ => ⟨.error, 306⟩
  | .unbuiltArgument .. => ⟨.error, 307⟩
  | .bitsAsReal => ⟨.unsupported, 301⟩
  | .systemFunction _ => ⟨.unsupported, 302⟩
  | .realLogical _ => ⟨.unsupported, 303⟩
  | .noStructure _ => ⟨.internal, 301⟩
  | .bitwiseWidths .. => ⟨.internal, 302⟩
  | .untypedBranches => ⟨.internal, 303⟩
  | .partOutside .. => ⟨.internal, 304⟩

/-- The severity of the report. It is set with each problem, and not read off the code. -/
def severity : Problem → Severity
  | .realBitwise _ => .error
  | .realCaseEquality _ => .error
  | .realModulus => .error
  | .branchDomains .. => .error
  | .realUnary _ => .error
  | .realShift _ => .error
  | .unbuiltArgument .. => .error
  | .bitsAsReal => .unsupported
  | .systemFunction _ => .unsupported
  | .realLogical _ => .unsupported
  | .noStructure _ => .internal
  | .bitwiseWidths .. => .internal
  | .untypedBranches => .internal
  | .partOutside .. => .internal

def quoted (source : String) : String := "`" ++ source ++ "`"

def message : Problem → String
  | .realBitwise op => s!"bitwise operator {quoted op.symbol} may not have real operands"
  | .realCaseEquality op =>
      let name := if op = .caseNotEqual then "case inequality" else "case equality"
      s!"{name} {quoted op.symbol} may not have real operands"
  | .realModulus => "modulus operator may not have real operands"
  | .branchDomains .. => "true and false clauses of ternary expression have different types"
  | .realUnary op =>
      let name := if op = .invert then "bitwise negation" else "reduction operator"
      s!"{name} {quoted op.symbol} may not have a real operand"
  | .realShift op => s!"shift operator {quoted op.symbol} cannot shift a real value"
  | .unbuiltArgument position function =>
      s!"unable to synthesize port {position} of call to {quoted function}"
  | .bitsAsReal => "cannot convert bit based value to real"
  | .systemFunction name => s!"cannot synthesize system function {quoted name} in this context"
  | .realLogical op =>
      s!"logical operator {quoted op.symbol} is currently unsupported for real values"
  | .noStructure construct => s!"cannot synthesize expression: {construct}"
  | .bitwiseWidths op left right _ _ =>
      s!"bitwise {quoted op.symbol} operand widths do not match: {left} != {right}"
  | .untypedBranches => "true and false clauses of ternary both have no type"
  | .partOutside offset width vectorWidth =>
      s!"part-select of {width} bits at offset {offset} is outside a {vectorWidth}-bit vector"

/-- The spans that a message points at besides its own. -/
def labels : Problem → List Label
  | .branchDomains whenTrue whenFalse trueSpan falseSpan =>
      [⟨.secondary, trueSpan, s!"true clause is {whenTrue.text}"⟩,
        ⟨.secondary, falseSpan, s!"false clause is {whenFalse.text}"⟩]
  | .bitwiseWidths _ left right leftSpan rightSpan =>
      [⟨.secondary, leftSpan, s!"width={left}"⟩, ⟨.secondary, rightSpan, s!"width={right}"⟩]
  | _ => []

def notes : Problem → List String
  | .bitsAsReal => ["only constant bit vectors are promoted to real"]
  | _ => []

def help : Problem → List String
  | .realModulus => ["set `synth.generation = \"2001x\"` in vire.toml to allow real modulus"]
  | _ => []

def diagnostic (problem : Problem) (span : Span) : Diagnostic where
  severity := problem.severity
  code := problem.code
  message := problem.message
  span
  labels := problem.labels
  notes := problem.notes
  help := problem.help

end Problem

end NetSynth
