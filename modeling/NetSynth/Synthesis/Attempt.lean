import NetSynth.Expr
import NetSynth.Synthesis.Coercion
import NetSynth.Synthesis.Problem

/-!
Steps that may fail with a report to the user. A failure reports at least one problem, and the run
goes on with the other parts of the expression; only a stop ends the run.
-/

namespace NetSynth

abbrev Attempt := OptionT Build

namespace Attempt

def reject (problem : Problem) (span : Span) : Attempt α := OptionT.mk do
  Build.report (problem.diagnostic span)
  return none

/-- Runs both in order, whatever becomes of the first. -/
def both (first : Attempt α) (second : Attempt β) : Attempt (α × β) := OptionT.mk do
  let a ← first.run
  let b ← second.run
  return a.bind fun a => b.map fun b => (a, b)

def all : List (Attempt α) → Attempt (List α)
  | [] => return []
  | first :: rest => do
      let (a, as) ← both first (all rest)
      return a :: as

def orReport (attempt : Attempt α) (problem : Problem) (span : Span) : Attempt α := OptionT.mk do
  match ← attempt.run with
  | some a => return some a
  | none => reject problem span

end Attempt

/-- A part of an expression as a rule sees it: what it says, and how to build it. -/
structure Operand where
  expr : Expr
  build : Attempt NetId

namespace Operand

/-- Builds the operand of an operator that works on real numbers if `real` says so. Then a constant
vector counts as the number that it writes, and no other vector does. -/
def buildIn (operand : Operand) (real : Bool) : Attempt NetId :=
  if real && !operand.expr.isReal then
    match operand.expr.constant? with
    | some value => Build.literal (value.toReal operand.expr.signed) operand.expr.span
    | none => Attempt.reject .bitsAsReal operand.expr.span
  else
    operand.build

end Operand

structure OperandPair where
  real : Bool
  left : NetId
  right : NetId

/-- Builds two operands in one domain, which is real if either of them declares a real value. -/
def OperandPair.build (left right : Operand) : Attempt OperandPair := do
  let real := left.expr.isReal || right.expr.isReal
  let (l, r) ← Attempt.both (left.buildIn real) (right.buildIn real)
  return ⟨real, l, r⟩

end NetSynth
