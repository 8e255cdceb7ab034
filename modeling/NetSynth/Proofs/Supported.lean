import NetSynth.Proofs.TypeSoundness
import NetSynth.Proofs.Verdict

/-! The expressions that have a structural form, told from what their nodes declare. Of the
well-typed expressions synthesis builds these and no others. -/
namespace NetSynth

namespace Expr

/-- Whether an operand can be built in the domain of its operator, given whether it is supported by
itself. Among real numbers a vector has to be a constant. -/
def supportedIn (real : Bool) (operand : Expr) (supported : Bool) : Bool :=
  if real && !operand.isReal then operand.constant?.isSome else supported

/-- Whether two operands can be built in one domain, given whether each is supported by itself. -/
def pairSupported (left right : Expr) (onLeft onRight : Bool) : Bool :=
  let real := left.isReal || right.isReal
  left.supportedIn real onLeft && right.supportedIn real onRight

/-- Whether a part that starts at the base lies in the vector, where the base is known beforehand.
Any other base has to be supported. -/
def supportsBase (node : Node) (vector base : Expr) (supported : Bool) : Bool :=
  match base.constant?.bind (·.toInt? base.signed) with
  | some offset => 0 ≤ offset ∧ offset + node.width ≤ vector.node.width
  | none => supported

end Expr

namespace BinaryOp

/-- Whether an operator has a structural form on two operands, given whether each is supported by
itself. -/
def supports (generation : Generation) (left right : Expr) (onLeft onRight : Bool) :
    BinaryOp → Bool
  | .sum _ => left.pairSupported right onLeft onRight
  | .compare op =>
      left.pairSupported right onLeft onRight && !((left.isReal || right.isReal) && op.isCase)
  | .arithmetic op =>
      left.pairSupported right onLeft onRight &&
        !(op = .modulo && (left.isReal || right.isReal) && !generation.allowsRealModulus)
  | .bitwise _ | .logical _ => onLeft && onRight && !(left.isReal || right.isReal)
  | .shift _ => onLeft && onRight && !left.isReal

variable {generation : Generation} {left right : Expr} {onLeft onRight : Bool}

theorem supports_sum {op : Direction} :
    (sum op).supports generation left right onLeft onRight =
      left.pairSupported right onLeft onRight := rfl

theorem supports_compare {op : Comparison} :
    (compare op).supports generation left right onLeft onRight =
      (left.pairSupported right onLeft onRight &&
        !((left.isReal || right.isReal) && op.isCase)) := rfl

theorem supports_arithmetic {op : Arithmetic} :
    (arithmetic op).supports generation left right onLeft onRight =
      (left.pairSupported right onLeft onRight &&
        !(op = .modulo && (left.isReal || right.isReal) && !generation.allowsRealModulus)) := rfl

theorem supports_bitwise {op : Bitwise} :
    (bitwise op).supports generation left right onLeft onRight =
      (onLeft && onRight && !(left.isReal || right.isReal)) := rfl

theorem supports_logical {op : Logical} :
    (logical op).supports generation left right onLeft onRight =
      (onLeft && onRight && !(left.isReal || right.isReal)) := rfl

theorem supports_shift {op : Shift} :
    (shift op).supports generation left right onLeft onRight =
      (onLeft && onRight && !left.isReal) := rfl

end BinaryOp

namespace Expr

mutual

/-- Whether an expression has a structural form. -/
def supported (generation : Generation) : Expr → Bool
  | constant .. | real .. | signal .. => true
  | word _ _ index => supported generation index
  | unary _ op operand => op != .negate && supported generation operand && !operand.isReal
  | binary _ op left right =>
      op.supports generation left right (supported generation left) (supported generation right)
  | concat _ parts _ => allSupported generation parts
  | resize _ operand => supported generation operand
  | partSelect node vector base =>
      supported generation vector && supportsBase node vector base (supported generation base)
  | conditional _ condition whenTrue whenFalse =>
      supported generation condition && supported generation whenTrue &&
        supported generation whenFalse &&
        (whenTrue.node.domain = whenFalse.node.domain ∧ whenTrue.node.domain ≠ .untyped)
  | call _ _ _ arguments => allSupported generation arguments
  | systemCall .. | parameter .. | scopeRef .. | event .. => false

def allSupported (generation : Generation) : List Expr → Bool
  | [] => true
  | first :: rest => supported generation first && allSupported generation rest

end

variable {generation : Generation} {node : Node}

theorem supported_word {memory : NetId} {index : Expr} :
    (word node memory index).supported generation = index.supported generation := rfl

theorem supported_unary {op : UnaryOp} {operand : Expr} :
    (unary node op operand).supported generation =
      (op != .negate && operand.supported generation && !operand.isReal) := rfl

theorem supported_binary {op : BinaryOp} {left right : Expr} :
    (binary node op left right).supported generation =
      op.supports generation left right (left.supported generation)
        (right.supported generation) := rfl

theorem supported_concat {parts : List Expr} {repeats : Nat} :
    (concat node parts repeats).supported generation = allSupported generation parts := rfl

theorem supported_resize {operand : Expr} :
    (resize node operand).supported generation = operand.supported generation := rfl

theorem supported_partSelect {vector base : Expr} :
    (partSelect node vector base).supported generation =
      (vector.supported generation &&
        supportsBase node vector base (base.supported generation)) := rfl

theorem supported_conditional {condition whenTrue whenFalse : Expr} :
    (conditional node condition whenTrue whenFalse).supported generation =
      (condition.supported generation && whenTrue.supported generation &&
        whenFalse.supported generation &&
        decide (whenTrue.node.domain = whenFalse.node.domain ∧
          whenTrue.node.domain ≠ .untyped)) := rfl

theorem supported_call {function : FunctionId} {scope : ScopeId} {arguments : List Expr} :
    (call node function scope arguments).supported generation =
      allSupported generation arguments := rfl

theorem allSupported_cons {first : Expr} {rest : List Expr} :
    allSupported generation (first :: rest) =
      (first.supported generation && allSupported generation rest) := rfl

theorem allSupported_iff {parts : List Expr} :
    allSupported generation parts = true ↔ ∀ part ∈ parts, part.supported generation = true := by
  induction parts with
  | nil => exact iff_of_true rfl (by simp)
  | cons first rest ih => rw [allSupported_cons, Bool.and_eq_true, ih, List.forall_mem_cons]

theorem supported_of_constant {expr : Expr} (constant : expr.constant?.isSome) :
    expr.supported generation = true := by
  cases expr with
  | constant => rfl
  | _ => cases constant

end Expr

theorem Rule.constant_of_fixedAmount {node : Node} {op : Shift} {expr : Expr} {amount : Nat}
    (fixed : Rule.fixedAmount? node op expr = some amount) : expr.constant?.isSome := by
  rw [Rule.fixedAmount?] at fixed
  split at fixed
  · cases fixed
  · exact Option.isSome_of_isSome_bind (Option.isSome_of_mem fixed)

/-- The operand is built exactly if it is supported, and then its net has the type of the
expression. -/
abbrev Settles (generation : Generation) (start : Design) (operand : Operand) : Prop :=
  Decides start operand.build (operand.expr.supported generation = true) fun after id =>
    after.Carries id operand.expr.netType

namespace Verdict

open Typed

variable {generation : Generation} {start : Design} {left right : Operand}

theorem buildIn {operand : Operand} (settles : Settles generation start operand)
    (root : (start.scope? .root).isSome) (real : Bool) :
    Decides start (operand.buildIn real)
      (operand.expr.supportedIn real (operand.expr.supported generation) = true)
      fun after id => ∃ type, after.Carries id type ∧ (real = true → type.domain = .real) ∧
        (real = false → type = operand.expr.netType) where
  attempts := Yields.buildIn settles.attempts root real
  verdict := by
    rw [Operand.buildIn, Expr.supportedIn]
    by_cases promoted : (real && !operand.expr.isReal) = true
    · rw [if_pos promoted, if_pos promoted]
      cases operand.expr.constant? with
      | some value => exact lift _ rfl
      | none => exact reject Bool.false_ne_true
    · rw [if_neg promoted, if_neg promoted]
      exact settles.verdict

section Binary

variable (onLeft : Settles generation start left) (onRight : Settles generation start right)
include onLeft onRight

theorem pair (root : (start.scope? .root).isSome) :
    Decides start (OperandPair.build left right)
      (left.expr.pairSupported right.expr (left.expr.supported generation)
        (right.expr.supported generation) = true)
      fun after args => ∃ typeLeft typeRight,
        Paired after args left.expr right.expr typeLeft typeRight where
  attempts := Typed.pair root onLeft.attempts onRight.attempts
  verdict := by
    rw [Expr.pairSupported, Bool.and_eq_true]
    refine bind (Decides.both ?_ (buildIn onLeft root _) (buildIn onRight root _)) id ?_
    · exact fun _ _ _ grown ⟨type, carries, rest⟩ => ⟨type, carries.grows grown, rest⟩
    · exact fun _ _ _ _ holds => pure _ holds

theorem both : Decides start (Attempt.both left.build right.build)
    (left.expr.supported generation = true ∧ right.expr.supported generation = true)
    fun after pair => after.Carries pair.1 left.expr.netType ∧
      after.Carries pair.2 right.expr.netType :=
  Decides.both (Design.Carries.lasts _) onLeft onRight

theorem sum (root : (start.scope? .root).isSome) (node : Node) (op : Direction) :
    Verdict start (Rule.sum node op left right)
      ((Expr.binary node (.sum op) left.expr right.expr).supported generation = true) := by
  rw [Expr.supported_binary, BinaryOp.supports_sum]
  refine bind (pair onLeft onRight root) id fun args mid grown _ holds => ?_
  refine of_commits (.bind (.lift _) fun l => .bind (.lift _) fun r => ?_) holds
  generalize (if args.real = true then 1 else node.width) = width
  split
  · exact .fail _
  · exact .bind (.lift _) fun a => .bind (.lift _) fun b => .lift _

theorem compare (root : (start.scope? .root).isSome) (node : Node) (op : Comparison) :
    Verdict start (Rule.compare node op left right)
      ((Expr.binary node (.compare op) left.expr right.expr).supported generation = true) := by
  rw [Expr.supported_binary, BinaryOp.supports_compare, Bool.and_eq_true, Bool.not_eq_true']
  refine bind (pair onLeft onRight root) And.left ?_
  rintro args mid grown ⟨_, _, paired⟩ holds
  rw [← paired.real]
  refine guarded And.right fun allowed => of_commits ?_ ⟨holds, allowed⟩
  exact .bind (.lift _) fun l => .bind (.lift _) fun r => .bind (.lift _) fun a =>
    .bind (.lift _) fun b => .lift _

theorem arithmetic (root : (start.scope? .root).isSome) (node : Node) (op : Arithmetic) :
    Verdict start (Rule.arithmetic generation node op left right)
      ((Expr.binary node (.arithmetic op) left.expr right.expr).supported generation = true) := by
  rw [Expr.supported_binary, BinaryOp.supports_arithmetic, Bool.and_eq_true, Bool.not_eq_true']
  refine bind (pair onLeft onRight root) And.left ?_
  rintro args mid grown ⟨_, _, paired⟩ holds
  rw [← paired.real]
  refine guarded And.right fun allowed => of_commits ?_ ⟨holds, allowed⟩
  exact .bind (.lift _) fun l => .bind (.lift _) fun r => .lift _

theorem bitwise (node : Node) (op : Bitwise)
    (widths : left.expr.isReal = false → right.expr.isReal = false →
      left.expr.node.width = node.width ∧ right.expr.node.width = node.width) :
    Verdict start (Rule.bitwise node op left right)
      ((Expr.binary node (.bitwise op) left.expr right.expr).supported generation = true) := by
  rw [Expr.supported_binary, BinaryOp.supports_bitwise, Bool.and_eq_true, Bool.and_eq_true,
    Bool.not_eq_true']
  refine bind (both onLeft onRight) And.left ?_
  rintro ⟨a, b⟩ mid grown ⟨onA, onB⟩ holds
  refine lookBoth onA onB fun l r mid₁ _ sameL sameR => ?_
  rw [isReal_of sameL, isReal_of sameR, width_of sameL, width_of sameR]
  refine guarded And.right fun vectors => ?_
  obtain ⟨unrealL, unrealR⟩ := Bool.or_eq_false_iff.mp vectors
  obtain ⟨fitsL, fitsR⟩ := widths unrealL unrealR
  rw [if_neg (by simp [fitsL, fitsR])]
  exact lift _ ⟨holds, vectors⟩

theorem logical (node : Node) (op : Logical) :
    Verdict start (Rule.logical node op left right)
      ((Expr.binary node (.logical op) left.expr right.expr).supported generation = true) := by
  rw [Expr.supported_binary, BinaryOp.supports_logical, Bool.and_eq_true, Bool.and_eq_true,
    Bool.not_eq_true']
  refine bind (both onLeft onRight) And.left ?_
  rintro ⟨a, b⟩ mid grown ⟨onA, onB⟩ holds
  refine lookBoth onA onB fun l r mid₁ _ sameL sameR => ?_
  rw [isReal_of sameL, isReal_of sameR]
  exact guarded And.right fun vectors => lift _ ⟨holds, vectors⟩

/-- A shift by a known amount does not build it, but a constant is supported anyway. -/
theorem shift (node : Node) (op : Shift) :
    Verdict start (Rule.shift node op left right)
      ((Expr.binary node (.shift op) left.expr right.expr).supported generation = true) := by
  rw [Expr.supported_binary, BinaryOp.supports_shift, Bool.and_eq_true, Bool.and_eq_true,
    Bool.not_eq_true']
  refine bind onLeft (fun holds => holds.1.1) fun id mid grown carries holds => ?_
  refine look carries fun value mid₁ grown₁ same => ?_
  rw [isReal_of same]
  refine guarded And.right fun vector => ?_
  split
  · exact fail _
  · cases fixed : Rule.fixedAmount? node op right.expr with
    | some amount =>
      have constant := Rule.constant_of_fixedAmount fixed
      exact lift _ ⟨⟨holds, Expr.supported_of_constant constant⟩, vector⟩
    | none =>
      refine bind (onRight.later (grown.trans grown₁)) (fun holds => holds.1.2) ?_
      exact fun distance mid₂ _ _ supported => lift _ ⟨⟨holds, supported⟩, vector⟩

end Binary

theorem unary {operand : Operand} (node : Node) (op : UnaryOp)
    (settles : op ≠ .negate → Settles generation start operand) :
    Verdict start (Rule.unary node op operand)
      ((Expr.unary node op operand.expr).supported generation = true) := by
  have onVector : op ≠ .negate → ∀ finish,
      Verdict start (Rule.onVector node op operand finish)
        (operand.expr.supported generation = true ∧ operand.expr.isReal = false) := by
    intro builds finish
    refine bind (settles builds) And.left fun id mid grown carries holds => ?_
    refine look carries fun input mid₁ _ same => ?_
    rw [isReal_of same]
    exact guarded And.right fun vector => lift _ ⟨holds, vector⟩
  cases op with
  | negate => exact reject nofun
  | invert => exact (onVector nofun _).congr (by simp [Expr.supported_unary])
  | reduce mode => exact (onVector nofun _).congr (by simp [Expr.supported_unary])
  | logicalNot => exact (onVector nofun _).congr (by simp [Expr.supported_unary])

theorem all {attempts : List (Attempt NetId)} {operands : List Operand}
    (each : List.Forall₂ (fun attempt (operand : Operand) => Decides start attempt
      (operand.expr.supported generation = true) fun after id =>
        after.Carries id operand.expr.netType) attempts operands) :
    Decides start (Attempt.all attempts)
      (Expr.allSupported generation (operands.map (·.expr)) = true) fun after ids =>
        List.Forall₂ (fun id (operand : Operand) => after.Carries id operand.expr.netType)
          ids operands := by
  have all := Decides.all (fun _ => Design.Carries.lasts _) each
  refine ⟨all.attempts, all.verdict.congr ?_⟩
  rw [Expr.allSupported_iff, List.forall_mem_map]

theorem concat {parts : List Operand} (each : ∀ part ∈ parts, Settles generation start part)
    (node : Node) (repeats : Nat) :
    Verdict start (Rule.concat node parts repeats)
      ((Expr.concat node (parts.map (·.expr)) repeats).supported generation = true) := by
  rw [Expr.supported_concat]
  refine bind (all ?_) id fun ids mid grown _ holds => ?_
  · exact List.forall₂_map_left_iff.mpr (List.forall₂_same.mpr each)
  · split
    · exact fail _
    · exact of_commits (.bind (.lift _) fun leftmost => .lift _) holds

theorem resize {operand : Operand} (settles : Settles generation start operand) (node : Node) :
    Verdict start (Rule.resize node operand)
      ((Expr.resize node operand.expr).supported generation = true) := by
  rw [Expr.supported_resize]
  refine bind settles id fun id mid grown _ holds => ?_
  refine of_commits (.bind (.lift _) fun source => ?_) holds
  split <;> exact .lift _

/-- A base that is known beforehand is refused where the part is not inside the vector. -/
theorem partBase {vector base : Operand} (onBase : Settles generation start base) (node : Node) :
    Verdict start (Rule.partBase node vector.expr.node.width base)
      (Expr.supportsBase node vector.expr base.expr (base.expr.supported generation) = true) := by
  rw [Rule.partBase, Expr.supportsBase]
  cases base.expr.constant?.bind (·.toInt? base.expr.signed) with
  | some offset =>
    dsimp only
    split
    · rename_i outside
      exact reject fun inside => by simp at inside; omega
    · rename_i inside
      exact pure _ (by simp; omega)
  | none => exact bind onBase id fun id mid _ _ holds =>
      of_commits (.bind (.lift _) fun source => .pure _) holds

theorem partSelect {vector base : Operand} (onVector : Settles generation start vector)
    (onBase : Settles generation start base) (node : Node) :
    Verdict start (Rule.partSelect node vector base)
      ((Expr.partSelect node vector.expr base.expr).supported generation = true) := by
  rw [Expr.supported_partSelect, Bool.and_eq_true]
  refine bind onVector And.left fun id mid grown carries holds => ?_
  refine look carries fun source mid₁ grown₁ same => ?_
  have onBase := onBase.later (grown.trans grown₁)
  rw [width_of same]
  refine bind ⟨Typed.partBase onBase.attempts _ _, partBase onBase node⟩ And.right ?_
  rintro ⟨start, startNet⟩ mid₂ _ _ inside
  exact lift _ ⟨holds, inside⟩

theorem conditional {condition whenTrue whenFalse : Operand}
    (onCondition : Settles generation start condition) (onTrue : Settles generation start whenTrue)
    (onFalse : Settles generation start whenFalse) (node : Node) :
    Verdict start (Rule.conditional node condition whenTrue whenFalse)
      ((Expr.conditional node condition.expr whenTrue.expr whenFalse.expr).supported
        generation = true) := by
  simp only [Expr.supported_conditional, Bool.and_eq_true, decide_eq_true_eq, and_assoc]
  refine bind (Decides.both (Design.Carries.lasts _) onCondition (both onTrue onFalse)) ?_ ?_
  · exact fun ⟨c, t, f, _⟩ => ⟨c, t, f⟩
  rintro ⟨c, t, f⟩ mid grown ⟨_, onT, onF⟩ ⟨holdsC, holdsT, holdsF⟩
  refine lookBoth onT onF fun trueNet falseNet mid₁ _ sameT sameF => ?_
  rw [domain_of sameT, domain_of sameF]
  split
  · rename_i differ
    exact reject fun ⟨_, _, _, equal, _⟩ => differ equal
  · rename_i equal
    split
    · rename_i untyped
      exact reject fun ⟨_, _, _, _, typed⟩ => typed untyped
    · rename_i typed
      refine of_commits (.bind (.lift _) fun choice => .lift _) ?_
      exact ⟨holdsC, holdsT, holdsF, Decidable.not_not.mp equal, typed⟩

theorem word {index : Operand} (settles : Settles generation start index) {memory : NetId}
    {net : Net} {words : MemoryWords} (known : start.net? memory = some net)
    (named : net.memory = some words) (node : Node) :
    Verdict start (Rule.word node memory index)
      ((Expr.word node memory index.expr).supported generation = true) := by
  rw [Expr.supported_word]
  refine bindLift (Typed.memoryOf known named) ?_
  rintro ⟨found, words'⟩ mid grown _
  dsimp only
  split
  · rename_i value definite
    have constant : index.expr.constant?.isSome :=
      Option.isSome_of_isSome_filter _ _ (Option.isSome_of_mem definite)
    split
    · exact pure _ (Expr.supported_of_constant constant)
    · exact fail _
  · exact bind (settles.later grown) id fun address mid₁ _ _ holds => lift _ holds

theorem call {arguments : List Operand}
    (each : ∀ argument ∈ arguments, Settles generation start argument) {function : FunctionId}
    {signature : FunctionSignature} (known : start.function? function = some signature)
    (named : start.NamesFunction function) (node : Node) (scope : ScopeId) :
    Verdict start (Rule.call node function scope arguments)
      ((Expr.call node function scope (arguments.map (·.expr))).supported generation = true) := by
  rw [Expr.supported_call]
  refine bindLift (Typed.functionOf known named) ?_
  rintro ⟨signature', name⟩ mid grown _
  dsimp only
  split
  · exact fail _
  · refine bind (all ?_) id fun ids mid₁ _ _ holds => lift _ holds
    rw [List.forall₂_iff_get]
    refine ⟨by simp, fun position inside _ => ?_⟩
    simp only [List.get_eq_getElem, List.getElem_mapIdx]
    exact ((each _ (List.getElem_mem _)).later grown).orReport _ _

/-- A well-typed expression is built exactly if it is supported. -/
theorem build (valid : start.WellFormed) (generation : Generation) {expr : Expr}
    (typed : expr.WellTyped start) :
    Verdict start (expr.build generation) (expr.supported generation = true) := by
  have root := valid.root
  have settles : ∀ {expr : Expr}, expr.WellTyped start →
      Verdict start (expr.build generation) (expr.supported generation = true) →
      Settles generation start ⟨expr, expr.build generation⟩ :=
    fun typed verdict => ⟨Typed.yields valid generation typed, verdict⟩
  induction typed with
  | constant => exact lift _ rfl
  | real => exact lift _ rfl
  | signal => exact pure _ rfl
  | word known named _ _ onIndex _ _ ih => exact word (settles onIndex ih) known named _
  | sum onLeft onRight _ _ _ ihLeft ihRight =>
    exact sum (settles onLeft ihLeft) (settles onRight ihRight) root _ _
  | arithmetic onLeft onRight _ _ ihLeft ihRight =>
    exact arithmetic (settles onLeft ihLeft) (settles onRight ihRight) root _ _
  | bitwise onLeft onRight _ widths ihLeft ihRight =>
    exact bitwise (settles onLeft ihLeft) (settles onRight ihRight) _ _ widths
  | compare onLeft onRight _ _ ihLeft ihRight =>
    exact compare (settles onLeft ihLeft) (settles onRight ihRight) root _ _
  | logical onLeft onRight _ _ ihLeft ihRight =>
    exact logical (settles onLeft ihLeft) (settles onRight ihRight) _ _
  | shift onLeft onRight _ _ _ _ ihLeft ihRight =>
    exact shift (settles onLeft ihLeft) (settles onRight ihRight) _ _
  | negate => exact unary _ _ fun builds => absurd rfl builds
  | invert onOperand _ _ ih => exact unary _ _ fun _ => settles onOperand ih
  | reduce onOperand _ ih => exact unary _ _ fun _ => settles onOperand ih
  | logicalNot onOperand _ ih => exact unary _ _ fun _ => settles onOperand ih
  | @concat node parts repeats onParts _ _ _ _ ih =>
    have each : ∀ part ∈ Expr.operands generation parts, Settles generation start part := by
      rw [Expr.operands_eq_map, List.forall_mem_map]
      exact fun part member => settles (onParts part member) (ih part member)
    have verdict := concat each node repeats
    rwa [Expr.operands_expr] at verdict
  | resize onOperand _ _ ih => exact resize (settles onOperand ih) _
  | partSelect onVector onBase _ _ _ ihVector ihBase =>
    exact partSelect (settles onVector ihVector) (settles onBase ihBase) _
  | conditional onCondition onTrue onFalse _ _ _ ihCondition ihTrue ihFalse =>
    exact conditional (settles onCondition ihCondition) (settles onTrue ihTrue)
      (settles onFalse ihFalse) _
  | @call node function scope arguments signature known named _ _ _ _ onArguments _ ih =>
    have each : ∀ argument ∈ Expr.operands generation arguments,
        Settles generation start argument := by
      rw [Expr.operands_eq_map, List.forall_mem_map]
      exact fun argument member => settles (onArguments argument member) (ih argument member)
    have verdict := call each known named node scope
    rwa [Expr.operands_expr] at verdict
  | systemCall => exact reject nofun
  | parameter => exact reject nofun
  | scopeRef => exact reject nofun
  | event => exact reject nofun

end Verdict

/-- A request for a well-typed expression does not stop, and it returns a net if and only if the
expression has a structural form. -/
theorem synthesize_iff_supported (rootName : String) (commands : List Command)
    (settings : SynthesisSettings) (expr : Expr)
    (typed : expr.WellTyped (Design.reached rootName commands)) :
    ∃ result after,
      (synthesize settings expr).runOn (Design.reached rootName commands) = (.ok result, after) ∧
      (result.isSome ↔ expr.supported settings.generation = true) := by
  have steps := Design.reached_steps rootName commands
  have valid := steps.wellFormed (Design.wellFormed_empty rootName)
  have decides : Decides _ (expr.build settings.generation) _ _ :=
    ⟨Typed.yields valid settings.generation typed, Verdict.build valid settings.generation typed⟩
  obtain ⟨id, after, ran, _, _, holds⟩ | ⟨after, ran, _, refused⟩ | ⟨_, _, _, stopped⟩ :=
    (decides.ends (.refl _)).outcome
  · exact ⟨some id, after, ran, iff_of_true rfl holds⟩
  · exact ⟨none, after, ran, iff_of_false nofun refused⟩
  · exact stopped.elim

/-- The remainder of a real number by a constant is built for the newest generation only. -/
theorem synthesize_iff_supported_remainder :
    let design := Design.reached "top" [.addSignal .root "a" (.vector 1 false) .nowhere]
    let half := Expr.real ⟨⟨1, .real, false⟩, .nowhere⟩ 0.5
    let remainder := Expr.binary ⟨⟨1, .real, false⟩, .nowhere⟩ (.arithmetic .modulo) half
      (.constant ⟨.vector 4 false, .nowhere⟩ (Bits.ofNat 2 4))
    let chosen := Expr.conditional ⟨⟨1, .real, false⟩, .nowhere⟩
      (.signal ⟨.vector 1 false, .nowhere⟩ ⟨0⟩) remainder half
    chosen.WellTyped design ∧
      (∃ id after, (synthesize ⟨.v2001x, none⟩ chosen).runOn design = (.ok (some id), after)) ∧
      ∃ after, (synthesize ⟨.v2001, none⟩ chosen).runOn design = (.ok none, after) := by
  intro design half remainder chosen
  have typed : chosen.WellTyped design := by
    have onHalf : half.WellTyped design := .real rfl
    have onRemainder : remainder.WellTyped design :=
      .arithmetic onHalf (.constant rfl rfl) ⟨nofun, nofun⟩ ⟨rfl, rfl⟩
    exact .conditional (.signal rfl rfl rfl) onRemainder onHalf rfl rfl
      fun _ _ => ⟨rfl, fun _ => rfl⟩
  refine ⟨typed, ?_, ?_⟩
  · obtain ⟨result, after, ran, built⟩ :=
      synthesize_iff_supported "top" _ ⟨.v2001x, none⟩ chosen typed
    obtain ⟨id, rfl⟩ := Option.isSome_iff_exists.mp (built.mpr rfl)
    exact ⟨id, after, ran⟩
  · obtain ⟨result, after, ran, built⟩ :=
      synthesize_iff_supported "top" _ ⟨.v2001, none⟩ chosen typed
    cases result with
    | none => exact ⟨after, ran⟩
    | some id => exact absurd (built.mp rfl) nofun

end NetSynth
