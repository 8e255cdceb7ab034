import NetSynth.Synthesis.Expr

/-!
Synthesis of several expressions into one design, up to a limit on the number of errors.
-/

namespace NetSynth

/-- Builds one expression; nothing stands for a failure that was reported. -/
def synthesize (settings : SynthesisSettings) (expr : Expr) : Build (Option NetId) :=
  (expr.build settings.generation).run

inductive Outcome where
  | built (net : NetId)
  | failed
  | skipped
  deriving DecidableEq

def Outcome.ofNet? : Option NetId → Outcome
  | some net => .built net
  | none => .failed

def Outcome.isBuilt : Outcome → Bool
  | .built _ => true
  | _ => false

structure RunReport where
  outcomes : List Outcome
  errors : Nat
  deriving DecidableEq

namespace RunReport

def built (report : RunReport) : Nat := report.outcomes.countP Outcome.isBuilt

def failed (report : RunReport) : Nat := report.outcomes.count .failed

def skipped (report : RunReport) : Nat := report.outcomes.count .skipped

def isClean (report : RunReport) : Bool :=
  report.errors == 0 && report.built == report.outcomes.length

end RunReport

/-- Whether a design has as many errors as a run puts up with. -/
def SynthesisSettings.exhausted (settings : SynthesisSettings) (design : Design) : Bool :=
  settings.errorLimit.any (· ≤ design.errorCount)

/-- Builds the expressions in order, until the limit on errors is reached. -/
def synthesizeEach (settings : SynthesisSettings) : List Expr → Build (List Outcome)
  | [] => return []
  | expr :: rest => do
      if settings.exhausted (← get) then
        return List.replicate (rest.length + 1) .skipped
      else
        let outcome := Outcome.ofNet? (← synthesize settings expr)
        return outcome :: (← synthesizeEach settings rest)

def synthesizeAll (settings : SynthesisSettings) (exprs : List Expr) : Build RunReport := do
  let outcomes ← synthesizeEach settings exprs
  return ⟨outcomes, (← get).errorCount⟩

end NetSynth
