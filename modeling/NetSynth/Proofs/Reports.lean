import NetSynth.Proofs.Expressions
import NetSynth.Proofs.Primitives

/-! A failure is always reported and counted, and success never is. Steps that build leave the log
alone, so only the places where an attempt fails have to be accounted for. -/
namespace NetSynth

namespace Problem

variable (problem : Problem) (span : Span)

/-- No problem is a mere warning, and the severity of its report is that of its code. -/
theorem diagnostic_severity :
    ((problem.diagnostic span).code.category.letter, (problem.diagnostic span).severity) ∈
      [('E', Severity.error), ('S', .unsupported), ('I', .internal)] := by
  cases problem <;> simp [diagnostic, severity, code, Category.letter]

theorem diagnostic_isError : (problem.diagnostic span).severity.isError = true := by
  cases problem <;> rfl

end Problem

namespace DiagnosticLog

/-- The later log holds what the earlier one held and then the reports of the problems, and has
counted each of them. -/
structure Adds (before after : DiagnosticLog) (problems : List (Problem × Span)) : Prop where
  held : after.held.toList =
    before.held.toList ++ problems.map fun (problem, span) => problem.diagnostic span
  counted : after.errorCount = before.errorCount + problems.length

/-- Some problems were reported, or none. -/
def Extends (before after : DiagnosticLog) : Prop := ∃ problems, before.Adds after problems

/-- At least one problem was reported. -/
def Tells (before after : DiagnosticLog) : Prop :=
  ∃ problems, problems ≠ [] ∧ before.Adds after problems

variable {before mid after : DiagnosticLog}

theorem adds_nil (log : DiagnosticLog) : log.Adds log [] := ⟨by simp, rfl⟩

theorem adds_report (log : DiagnosticLog) (problem : Problem) (span : Span) :
    log.Adds (log.report (problem.diagnostic span)) [(problem, span)] where
  held := by simp [report]
  counted := by rw [report, if_pos (problem.diagnostic_isError span)]; rfl

theorem Adds.append {first second : List (Problem × Span)} (adds : before.Adds mid first)
    (more : mid.Adds after second) : before.Adds after (first ++ second) where
  held := by rw [more.held, adds.held, List.map_append, List.append_assoc]
  counted := by rw [more.counted, adds.counted, List.length_append, Nat.add_assoc]

theorem Extends.refl (log : DiagnosticLog) : log.Extends log := ⟨[], log.adds_nil⟩

theorem tells_report (log : DiagnosticLog) (problem : Problem) (span : Span) :
    log.Tells (log.report (problem.diagnostic span)) :=
  ⟨_, List.cons_ne_nil _ _, log.adds_report problem span⟩

theorem Tells.extends (tells : before.Tells after) : before.Extends after :=
  tells.imp fun _ adds => adds.2

theorem Tells.trans (tells : before.Tells mid) (more : mid.Extends after) :
    before.Tells after := by
  obtain ⟨first, some, adds⟩ := tells
  obtain ⟨second, addsMore⟩ := more
  exact ⟨first ++ second, by simp [some], adds.append addsMore⟩

end DiagnosticLog

variable {α β : Type}

namespace Build

/-- The run leaves the log as it was, however it ends. -/
def Silent (run : Build α) : Prop :=
  ∀ design, run.Ends design (fun _ after => after.log = design.log)
    fun after => after.log = design.log

namespace Silent

theorem pure (a : α) : (Pure.pure a : Build α).Silent := fun _ => rfl

theorem fail (fault : Fault) : (Build.fail fault : Build α).Silent := fun _ => rfl

theorem get : (MonadState.get : Build Design).Silent := fun _ => rfl

theorem bind {run : Build α} {next : α → Build β} (first : run.Silent)
    (second : ∀ a, (next a).Silent) : (run >>= next).Silent := by
  intro design
  rw [ends_bind]
  apply (first design).imp
  · intro a mid same
    rw [← same]
    exact second a mid
  · exact fun _ same => same

theorem net (id : NetId) : (Build.net id).Silent := by
  intro design
  rw [ends_net]
  exact ⟨fun _ _ => rfl, fun _ => rfl⟩

theorem addLocal (scope : ScopeId) (type : ValueType) (span : Span) :
    (Build.addLocal scope type span).Silent := by
  intro design
  rw [ends_addLocal]
  split
  · rfl
  · dsimp only
    split <;> rfl

theorem addDevice (scope : ScopeId) (kind : DeviceKind) (connections : List Connection)
    (span : Span) : (Build.addDevice scope kind connections span).Silent := by
  intro design
  rw [ends_addDevice]
  split <;> rfl

theorem drive {scope : ScopeId} {type : ValueType} {span : Span}
    {device : NetId → Build (DeviceKind × List Connection)} (each : ∀ out, (device out).Silent) :
    (Build.drive scope type span device).Silent :=
  (addLocal scope type span).bind fun out => (each out).bind fun (_, _) =>
    (addDevice _ _ _ _).bind fun _ => pure out

variable (id : NetId) (width : Nat) (signed : Bool) (span : Span)

theorem constant (scope : ScopeId) (value : Bits) :
    (Build.constant scope value signed span).Silent := drive fun _ => pure _

theorem literal (value : Float) : (Build.literal value span).Silent := drive fun _ => pure _

theorem extend : (Build.extend id width signed span).Silent := by
  refine (net id).bind fun source => ?_
  split
  · exact fail _
  · refine drive fun out => ?_
    split
    · exact pure _
    · exact (constant _ _ _ _).bind fun _ => pure _

theorem pad : (Build.pad id width span).Silent := by
  refine (net id).bind fun source => ?_
  split
  · exact pure _
  · exact extend _ _ _ _

theorem crop : (Build.crop id width span).Silent := by
  refine (net id).bind fun source => ?_
  split
  · exact pure _
  · exact drive fun _ => pure _

theorem fit : (Build.fit id width span).Silent :=
  (pad id width span).bind fun _ => crop _ _ _

end Silent
end Build

namespace Attempt

/-- Where the attempt succeeds it leaves the log as it was, where it fails it has reported a
problem, and where it stops it has reported nothing but problems. -/
def Accounts (attempt : Attempt α) : Prop :=
  ∀ design, attempt.Ends design (fun _ after => after.log = design.log)
    (fun after => design.log.Tells after.log) fun after => design.log.Extends after.log

namespace Accounts

theorem pure (a : α) : (Pure.pure a : Attempt α).Accounts := fun _ => rfl

theorem fail (fault : Fault) : Accounts (Build.fail fault : Build (Option α)) :=
  fun design => .refl design.log

theorem reject (problem : Problem) (span : Span) :
    (Attempt.reject problem span : Attempt α).Accounts :=
  fun design => design.log.tells_report problem span

theorem lift {run : Build α} (silent : run.Silent) : (liftM run : Attempt α).Accounts := by
  intro design
  rw [ends_liftM]
  exact (silent design).imp (fun _ _ same => same) fun _ same => same ▸ .refl _

theorem bind {attempt : Attempt α} {next : α → Attempt β} (first : attempt.Accounts)
    (second : ∀ a, (next a).Accounts) : (attempt >>= next).Accounts := by
  intro design
  rw [ends_bind]
  apply (first design).imp
  · intro a mid same
    rw [← same]
    exact second a mid
  · exact fun _ tells => tells
  · exact fun _ more => more

/-- After a failure of the first the second runs all the same, and may report more. -/
theorem both {first : Attempt α} {second : Attempt β} (onFirst : first.Accounts)
    (onSecond : second.Accounts) : (Attempt.both first second).Accounts := by
  intro design
  rw [ends_both]
  apply (onFirst design).imp
  · intro a mid same
    rw [← same]
    exact onSecond mid
  · intro mid tells
    apply (onSecond mid).imp
    · exact fun _ after same => same ▸ tells
    · exact fun after more => tells.trans more.extends
    · exact fun after more => (tells.trans more).extends
  · exact fun _ more => more

theorem all {attempts : List (Attempt α)} (each : ∀ attempt ∈ attempts, attempt.Accounts) :
    (Attempt.all attempts).Accounts := by
  induction attempts with
  | nil => exact pure []
  | cons first rest ih =>
    have onRest := ih fun attempt member => each attempt (List.mem_cons_of_mem _ member)
    exact (both (each first List.mem_cons_self) onRest).bind fun (_, _) => pure _

theorem orReport {attempt : Attempt α} (accounts : attempt.Accounts) (problem : Problem)
    (span : Span) : (attempt.orReport problem span).Accounts := by
  intro design
  rw [ends_orReport]
  apply (accounts design).imp
  · exact fun _ _ same => same
  · exact fun after tells => tells.trans (after.log.tells_report problem span).extends
  · exact fun _ more => more

theorem buildIn {operand : Operand} (onOperand : operand.build.Accounts) (real : Bool) :
    (operand.buildIn real).Accounts := by
  rw [Operand.buildIn]
  split
  · split
    · exact lift (.literal _ _)
    · exact reject _ _
  · exact onOperand

section Binary

variable {left right : Operand} (onLeft : left.build.Accounts) (onRight : right.build.Accounts)
include onLeft onRight

theorem pair : (OperandPair.build left right).Accounts :=
  (both (buildIn onLeft _) (buildIn onRight _)).bind fun (_, _) => pure _

theorem sum (node : Node) (op : Direction) : (Rule.sum node op left right).Accounts := by
  refine (pair onLeft onRight).bind fun args => ?_
  generalize (if args.real = true then 1 else node.width) = width
  refine (lift (.net _)).bind fun l => (lift (.net _)).bind fun r => ?_
  split
  · exact fail _
  · exact (lift (.pad _ _ _)).bind fun a => (lift (.pad _ _ _)).bind fun b =>
      lift (.drive fun _ => .pure _)

theorem bitwise (node : Node) (op : Bitwise) : (Rule.bitwise node op left right).Accounts := by
  refine (both onLeft onRight).bind fun (a, b) => ?_
  refine (lift (.net _)).bind fun l => (lift (.net _)).bind fun r => ?_
  split
  · exact reject _ _
  · split
    · exact reject _ _
    · exact lift (.drive fun _ => .pure _)

theorem compare (node : Node) (op : Comparison) : (Rule.compare node op left right).Accounts := by
  refine (pair onLeft onRight).bind fun args => ?_
  split
  · exact reject _ _
  · exact (lift (.net _)).bind fun l => (lift (.net _)).bind fun r =>
      (lift (.pad _ _ _)).bind fun a => (lift (.pad _ _ _)).bind fun b =>
        lift (.drive fun _ => .pure _)

theorem arithmetic (generation : Generation) (node : Node) (op : Arithmetic) :
    (Rule.arithmetic generation node op left right).Accounts := by
  refine (pair onLeft onRight).bind fun args => ?_
  split
  · exact reject _ _
  · exact (lift (.net _)).bind fun l => (lift (.net _)).bind fun r =>
      lift (.drive fun _ => .pure _)

theorem logical (node : Node) (op : Logical) : (Rule.logical node op left right).Accounts := by
  refine (both onLeft onRight).bind fun (a, b) => ?_
  refine (lift (.net _)).bind fun l => (lift (.net _)).bind fun r => ?_
  split
  · exact reject _ _
  · have inputs : (Rule.logicalInputs op a b l.width r.width).Silent := by
      cases op with
      | or => exact .pure _
      | and =>
        rw [Rule.logicalInputs]
        split
        · exact .pure _
        · exact .fail _
    exact lift (.drive fun _ => inputs.bind fun _ => .pure _)

theorem shift (node : Node) (op : Shift) : (Rule.shift node op left right).Accounts := by
  refine onLeft.bind fun id => (lift (.net _)).bind fun value => ?_
  split
  · exact reject _ _
  · split
    · exact fail _
    · split
      · rename_i amount _
        refine lift ?_
        rw [Rule.shiftBy]
        split
        · exact .pure _
        · split
          · exact .constant _ _ _ _
          · exact (Build.Silent.constant _ _ _ _).bind fun zeros =>
              (Build.Silent.drive fun _ => .pure _).bind fun part => .drive fun _ => .pure _
      · exact onRight.bind fun amount =>
          lift ((Build.Silent.net _).bind fun distance => .drive fun _ => .pure _)

theorem binary (generation : Generation) (node : Node) (op : BinaryOp) :
    (Rule.binary generation node op left right).Accounts := by
  cases op with
  | sum op => exact sum onLeft onRight node op
  | bitwise op => exact bitwise onLeft onRight node op
  | compare op => exact compare onLeft onRight node op
  | arithmetic op => exact arithmetic onLeft onRight generation node op
  | logical op => exact logical onLeft onRight node op
  | shift op => exact shift onLeft onRight node op

end Binary

theorem unary {operand : Operand} (onOperand : operand.build.Accounts) (node : Node)
    (op : UnaryOp) : (Rule.unary node op operand).Accounts := by
  have onVector : ∀ finish : NetId → Net → Build NetId, (∀ id input, (finish id input).Silent) →
      (Rule.onVector node op operand finish).Accounts := by
    intro finish silent
    refine onOperand.bind fun id => (lift (.net _)).bind fun input => ?_
    split
    · exact reject _ _
    · exact lift (silent id input)
  cases op with
  | negate => exact reject _ _
  | invert => exact onVector _ fun _ _ => .drive fun _ => .pure _
  | reduce mode => exact onVector _ fun _ _ => .drive fun _ => .pure _
  | logicalNot => exact onVector _ fun _ _ => .drive fun _ => .pure _

theorem concat {parts : List Operand} (each : ∀ part ∈ parts, part.build.Accounts) (node : Node)
    (repeats : Nat) : (Rule.concat node parts repeats).Accounts := by
  refine (all (List.forall_mem_map.mpr each)).bind fun ids => ?_
  split
  · exact fail _
  · exact (lift (.net _)).bind fun leftmost => lift (.drive fun _ => .pure _)

theorem resize {operand : Operand} (onOperand : operand.build.Accounts) (node : Node) :
    (Rule.resize node operand).Accounts := by
  refine onOperand.bind fun id => (lift (.net _)).bind fun source => ?_
  split
  · exact lift (.extend _ _ _ _)
  · exact lift (.crop _ _ _)

theorem partSelect {vector base : Operand} (onVector : vector.build.Accounts)
    (onBase : base.build.Accounts) (node : Node) :
    (Rule.partSelect node vector base).Accounts := by
  have start : ∀ width, (Rule.partBase node width base).Accounts := by
    intro width
    rw [Rule.partBase]
    split
    · split
      · exact reject _ _
      · exact pure _
    · exact onBase.bind fun id => (lift (.net _)).bind fun source => pure _
  exact onVector.bind fun id => (lift (.net _)).bind fun source =>
    (start source.width).bind fun (_, _) => lift (.drive fun _ => .pure _)

theorem conditional {condition whenTrue whenFalse : Operand}
    (onCondition : condition.build.Accounts) (onTrue : whenTrue.build.Accounts)
    (onFalse : whenFalse.build.Accounts) (node : Node) :
    (Rule.conditional node condition whenTrue whenFalse).Accounts := by
  refine (both onCondition (both onTrue onFalse)).bind fun (c, t, f) => ?_
  refine (lift (.net _)).bind fun trueNet => (lift (.net _)).bind fun falseNet => ?_
  split
  · exact reject _ _
  · split
    · exact reject _ _
    · refine (lift (.net _)).bind fun choice => lift ?_
      rw [Rule.choose]
      split
      · exact .fail _
      · exact (Build.Silent.fit _ _ _).bind fun t => (Build.Silent.fit _ _ _).bind fun f =>
          (Build.Silent.net _).bind fun width => .drive fun _ => .pure _

theorem word {index : Operand} (onIndex : index.build.Accounts) (node : Node) (memory : NetId) :
    (Rule.word node memory index).Accounts := by
  have look : (Rule.memoryOf memory).Silent := by
    refine Build.Silent.get.bind fun design => ?_
    split
    · exact .fail _
    · split
      · exact .fail _
      · exact .pure _
  refine (lift look).bind fun (found, words) => ?_
  dsimp only
  split
  · split
    · exact pure _
    · exact fail _
  · exact onIndex.bind fun address =>
      lift ((Build.Silent.net _).bind fun width => .drive fun _ => .pure _)

theorem fitArguments (arguments : List (NetId × Port × Operand)) :
    (Rule.fitArguments arguments).Silent := by
  induction arguments with
  | nil => exact .pure _
  | cons first rest ih =>
    exact (Build.Silent.fit _ _ _).bind fun fitted => ih.bind fun ids => .pure _

theorem call {arguments : List Operand} (each : ∀ argument ∈ arguments, argument.build.Accounts)
    (node : Node) (function : FunctionId) (scope : ScopeId) :
    (Rule.call node function scope arguments).Accounts := by
  have look : (Rule.functionOf function).Silent := by
    intro design
    rw [Build.ends_functionOf]
    split
    · rfl
    · split <;> rfl
  refine (lift look).bind fun (signature, name) => ?_
  dsimp only
  split
  · exact fail _
  · refine (all fun attempt member => ?_).bind fun ids =>
      lift (.drive fun _ => (fitArguments _).bind fun _ => .pure _)
    obtain ⟨position, inside, rfl⟩ := List.mem_mapIdx.mp member
    exact orReport (each _ (List.getElem_mem inside)) _ _

/-- Whatever the rules do with the parts of an expression, its failure is accounted for. -/
theorem build (generation : Generation) (expr : Expr) : (expr.build generation).Accounts := by
  induction expr using Expr.induction with
  | constant node value => exact lift (.constant _ _ _ _)
  | real node value => exact lift (.literal _ _)
  | unary node op operand ih => exact unary ih node op
  | binary node op left right ihLeft ihRight => exact binary ihLeft ihRight generation node op
  | concat node parts repeats ih =>
    refine concat (fun part member => ?_) node repeats
    rw [Expr.operands_eq_map] at member
    obtain ⟨part, listed, rfl⟩ := List.mem_map.mp member
    exact ih part listed
  | resize node operand ih => exact resize ih node
  | partSelect node vector base ihVector ihBase => exact partSelect ihVector ihBase node
  | conditional node condition whenTrue whenFalse ihCondition ihTrue ihFalse =>
    exact conditional ihCondition ihTrue ihFalse node
  | signal node net => exact pure net
  | word node memory index ih => exact word ih node memory
  | systemCall node name arguments _ => exact reject _ _
  | call node function scope arguments ih =>
    refine call (fun argument member => ?_) node function scope
    rw [Expr.operands_eq_map] at member
    obtain ⟨argument, listed, rfl⟩ := List.mem_map.mp member
    exact ih argument listed
  | parameter node name => exact reject _ _
  | scopeRef node scope => exact reject _ _
  | event node => exact reject _ _

end Accounts
end Attempt

/-- Whatever a request comes to, the log holds what it held before and then reports of errors, each
with the severity of its code's letter and each counted. There is none if the request returns a net,
and at least one if it fails. -/
theorem synthesize_reports (design : Design) (settings : SynthesisSettings) (expr : Expr) :
    let run := (synthesize settings expr).runOn design
    ∃ added : List Diagnostic, run.2.log.held.toList = design.log.held.toList ++ added ∧
      run.2.errorCount = design.errorCount + added.length ∧
      (∀ diagnostic ∈ added, diagnostic.severity.isError = true ∧
        (diagnostic.code.category.letter, diagnostic.severity) ∈
          [('E', .error), ('S', .unsupported), ('I', .internal)]) ∧
      (∀ id, run.1 = .ok (some id) → added = []) ∧ (run.1 = .ok none → added ≠ []) := by
  have sound : ∀ problems : List (Problem × Span), ∀ diagnostic ∈ problems.map
      fun (problem, span) => problem.diagnostic span, diagnostic.severity.isError = true ∧
        (diagnostic.code.category.letter, diagnostic.severity) ∈
          [('E', .error), ('S', .unsupported), ('I', .internal)] := by
    intro problems
    simp only [List.forall_mem_map]
    exact fun ⟨problem, span⟩ _ =>
      ⟨problem.diagnostic_isError span, problem.diagnostic_severity span⟩
  have accounts := Attempt.Accounts.build settings.generation expr design
  rw [synthesize]
  obtain ⟨id, after, ran, same⟩ | ⟨after, ran, problems, some, adds⟩ |
    ⟨stop, after, ran, problems, adds⟩ := accounts.outcome
  · rw [ran]
    have adds : design.log.Adds after.log [] := same ▸ design.log.adds_nil
    exact ⟨_, adds.held, adds.counted, sound [], fun _ _ => rfl, nofun⟩
  · rw [ran]
    refine ⟨_, adds.held, ?_, sound problems, nofun, fun _ => by simpa using some⟩
    rw [List.length_map]
    exact adds.counted
  · rw [ran]
    refine ⟨_, adds.held, ?_, sound problems, nofun, nofun⟩
    rw [List.length_map]
    exact adds.counted

end NetSynth
