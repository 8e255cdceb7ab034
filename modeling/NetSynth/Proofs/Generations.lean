import Mathlib.Data.List.Forall2
import NetSynth.Proofs.Commands
import NetSynth.Proofs.Expressions

/-! Two generations side by side. The generation is asked in one place alone, where a remainder of
real numbers is refused, and a run that comes to a net was not refused there. -/
namespace NetSynth

namespace Attempt

variable {α β : Type} {loose : Prop}

def Succeeds (attempt : Attempt α) (design : Design) : Prop :=
  ∃ value after, attempt.run.runOn design = (.ok (some value), after)

/-- Two attempts come to the same from every design. If that is `loose`, only where the first comes
to a value. -/
def Agrees (loose : Prop) (first second : Attempt α) : Prop :=
  ∀ design, (loose → first.Succeeds design) → first.run.runOn design = second.run.runOn design

theorem not_succeeds_reject (problem : Problem) (span : Span) (design : Design) :
    ¬(reject problem span : Attempt α).Succeeds design := by
  rintro ⟨value, after, ran⟩
  cases ran

theorem Succeeds.of_bind {attempt : Attempt α} {next : α → Attempt β} {design : Design}
    (succeeds : (attempt >>= next).Succeeds design) : ∃ value mid,
      attempt.run.runOn design = (.ok (some value), mid) ∧ (next value).Succeeds mid := by
  obtain ⟨last, after, ran⟩ := succeeds
  rw [run_bind] at ran
  rcases came : attempt.run.runOn design with ⟨_ | _ | value, mid⟩
  · simp [came] at ran
  · simp [came] at ran
  · rw [came] at ran
    exact ⟨value, mid, rfl, last, after, ran⟩

theorem Succeeds.of_both {first : Attempt α} {second : Attempt β} {design : Design}
    (succeeds : (both first second).Succeeds design) : ∃ value mid,
      first.run.runOn design = (.ok (some value), mid) ∧ second.Succeeds mid := by
  obtain ⟨last, after, ran⟩ := succeeds
  rw [run_both] at ran
  rcases came : first.run.runOn design with ⟨_ | a, mid⟩
  · simp [came] at ran
  · simp only [came] at ran
    rcases came' : second.run.runOn mid with ⟨_ | b, final⟩
    · simp [came'] at ran
    · rw [came'] at ran
      cases a with
      | none => cases ran
      | some a =>
        cases b with
        | none => cases ran
        | some b => exact ⟨a, mid, rfl, b, final, came'⟩

theorem Succeeds.of_orReport {attempt : Attempt α} {problem : Problem} {span : Span}
    {design : Design} (succeeds : (attempt.orReport problem span).Succeeds design) :
    attempt.Succeeds design := by
  obtain ⟨last, after, ran⟩ := succeeds
  rw [run_orReport] at ran
  rcases came : attempt.run.runOn design with ⟨_ | _ | value, mid⟩
  · simp [came] at ran
  · rw [came] at ran
    exact absurd ⟨last, after, ran⟩ (not_succeeds_reject problem span mid)
  · exact ⟨value, mid, came⟩

namespace Agrees

theorem refl (attempt : Attempt α) : Agrees loose attempt attempt := fun _ _ => rfl

/-- A refusal has no value, so that anything may take its place. -/
theorem of_reject (free : loose) (problem : Problem) (span : Span) (attempt : Attempt α) :
    Agrees loose (reject problem span) attempt :=
  fun design succeeds => absurd (succeeds free) (not_succeeds_reject problem span design)

theorem bind {first second : Attempt α} {next next' : α → Attempt β}
    (agree : Agrees loose first second) (go : ∀ value, Agrees loose (next value) (next' value)) :
    Agrees loose (first >>= next) (second >>= next') := by
  intro design succeeds
  have same := agree design fun free =>
    have ⟨value, mid, came, _⟩ := (succeeds free).of_bind
    ⟨value, mid, came⟩
  rw [run_bind, run_bind, ← same]
  rcases came : first.run.runOn design with ⟨_ | _ | value, mid⟩
  · rfl
  · rfl
  · apply go value mid
    intro free
    obtain ⟨value', mid', came', later⟩ := (succeeds free).of_bind
    cases came.symm.trans came'
    exact later

theorem both {first first' : Attempt α} {second second' : Attempt β}
    (agree : Agrees loose first first') (agree' : Agrees loose second second') :
    Agrees loose (both first second) (both first' second') := by
  intro design succeeds
  have same := agree design fun free =>
    have ⟨value, mid, came, _⟩ := (succeeds free).of_both
    ⟨value, mid, came⟩
  rw [run_both, run_both, ← same]
  rcases came : first.run.runOn design with ⟨_ | a, mid⟩
  · rfl
  · have same' := agree' mid fun free => by
      obtain ⟨value', mid', came', later⟩ := (succeeds free).of_both
      cases came.symm.trans came'
      exact later
    simp only [same']

theorem orReport {first second : Attempt α} (agree : Agrees loose first second) (problem : Problem)
    (span : Span) :
    Agrees loose (first.orReport problem span) (second.orReport problem span) := by
  intro design succeeds
  rw [run_orReport, run_orReport, agree design fun free => (succeeds free).of_orReport]

theorem all {firsts seconds : List (Attempt α)}
    (agree : List.Forall₂ (Agrees loose) firsts seconds) :
    Agrees loose (Attempt.all firsts) (Attempt.all seconds) := by
  induction agree with
  | nil => exact refl _
  | cons first rest ih =>
    rw [Attempt.all, Attempt.all]
    exact (first.both ih).bind fun _ => refl _

end Agrees
end Attempt

/-- The operands say the same, and building them agrees. -/
inductive Operand.Agrees (loose : Prop) : Operand → Operand → Prop where
  | mk {expr : Expr} {first second : Attempt NetId} (agree : first.Agrees loose second) :
      Agrees loose ⟨expr, first⟩ ⟨expr, second⟩

/-- Where two generations part over remainders of real numbers, the older one refuses them. -/
def Generation.Widens (loose : Prop) (older newer : Generation) : Prop :=
  older.allowsRealModulus = newer.allowsRealModulus ∨ loose ∧ older.allowsRealModulus = false

namespace Rule

open Attempt (Agrees)

variable {loose : Prop}

section Binary

variable {left left' right right' : Operand} (onLeft : left.Agrees loose left')
  (onRight : right.Agrees loose right')

theorem buildIn_agrees {operand operand' : Operand} (on : operand.Agrees loose operand')
    (real : Bool) : Agrees loose (operand.buildIn real) (operand'.buildIn real) := by
  obtain ⟨agree⟩ := on
  simp only [Operand.buildIn]
  split
  · exact .refl _
  · exact agree

include onLeft onRight

theorem pair_agrees :
    Agrees loose (OperandPair.build left right) (OperandPair.build left' right') := by
  have builtLeft := buildIn_agrees onLeft
  have builtRight := buildIn_agrees onRight
  obtain ⟨_⟩ := onLeft
  obtain ⟨_⟩ := onRight
  exact ((builtLeft _).both (builtRight _)).bind fun _ => .refl _

theorem sum_agrees (node : Node) (op : Direction) :
    Agrees loose (sum node op left right) (sum node op left' right') := by
  have pair := pair_agrees onLeft onRight
  obtain ⟨_⟩ := onLeft
  obtain ⟨_⟩ := onRight
  exact pair.bind fun _ => .refl _

theorem bitwise_agrees (node : Node) (op : Bitwise) :
    Agrees loose (bitwise node op left right) (bitwise node op left' right') := by
  obtain ⟨onLeft⟩ := onLeft
  obtain ⟨onRight⟩ := onRight
  exact (onLeft.both onRight).bind fun _ => .refl _

theorem compare_agrees (node : Node) (op : Comparison) :
    Agrees loose (compare node op left right) (compare node op left' right') := by
  have pair := pair_agrees onLeft onRight
  obtain ⟨_⟩ := onLeft
  obtain ⟨_⟩ := onRight
  exact pair.bind fun _ => .refl _

/-- The one rule that asks for the generation. -/
theorem arithmetic_agrees {older newer : Generation} (widens : older.Widens loose newer)
    (node : Node) (op : Arithmetic) :
    Agrees loose (arithmetic older node op left right) (arithmetic newer node op left' right') := by
  apply (pair_agrees onLeft onRight).bind
  intro args
  rcases widens with same | ⟨free, refuses⟩
  · rw [same]
    exact .refl _
  · cases remainder : op = .modulo && args.real with
    | true =>
      simp only [refuses, Bool.not_false, Bool.and_self, if_true]
      exact .of_reject free _ _ _
    | false =>
      simp only [Bool.false_and]
      exact .refl _

theorem logical_agrees (node : Node) (op : Logical) :
    Agrees loose (logical node op left right) (logical node op left' right') := by
  obtain ⟨onLeft⟩ := onLeft
  obtain ⟨onRight⟩ := onRight
  exact (onLeft.both onRight).bind fun _ => .refl _

/-- The amount is built after the vector, and only in one of the cases. -/
theorem shift_agrees (node : Node) (op : Shift) :
    Agrees loose (shift node op left right) (shift node op left' right') := by
  obtain ⟨onLeft⟩ := onLeft
  obtain ⟨onRight⟩ := onRight
  apply onLeft.bind
  intro id
  apply Agrees.bind (.refl _)
  intro value
  dsimp only
  split
  · exact .refl _
  split
  · exact .refl _
  split
  · exact .refl _
  · exact onRight.bind fun _ => .refl _

theorem binary_agrees {older newer : Generation} (widens : older.Widens loose newer)
    (node : Node) (op : BinaryOp) :
    Agrees loose (binary older node op left right) (binary newer node op left' right') := by
  cases op with
  | sum op => exact sum_agrees onLeft onRight node op
  | bitwise op => exact bitwise_agrees onLeft onRight node op
  | compare op => exact compare_agrees onLeft onRight node op
  | arithmetic op => exact arithmetic_agrees onLeft onRight widens node op
  | logical op => exact logical_agrees onLeft onRight node op
  | shift op => exact shift_agrees onLeft onRight node op

end Binary

theorem unary_agrees {operand operand' : Operand} (on : operand.Agrees loose operand')
    (node : Node) (op : UnaryOp) :
    Agrees loose (unary node op operand) (unary node op operand') := by
  obtain ⟨agree⟩ := on
  cases op with
  | negate => exact .refl _
  | invert | reduce | logicalNot => exact agree.bind fun _ => .refl _

theorem resize_agrees {operand operand' : Operand} (on : operand.Agrees loose operand')
    (node : Node) : Agrees loose (resize node operand) (resize node operand') := by
  obtain ⟨agree⟩ := on
  exact agree.bind fun _ => .refl _

theorem partBase_agrees {base base' : Operand} (on : base.Agrees loose base') (node : Node)
    (vectorWidth : Nat) :
    Agrees loose (partBase node vectorWidth base) (partBase node vectorWidth base') := by
  obtain ⟨agree⟩ := on
  simp only [partBase]
  split
  · exact .refl _
  · exact agree.bind fun _ => .refl _

theorem partSelect_agrees {vector vector' base base' : Operand}
    (onVector : vector.Agrees loose vector') (onBase : base.Agrees loose base') (node : Node) :
    Agrees loose (partSelect node vector base) (partSelect node vector' base') := by
  obtain ⟨onVector⟩ := onVector
  apply onVector.bind
  intro id
  apply Agrees.bind (.refl _)
  intro source
  exact (partBase_agrees onBase node source.width).bind fun _ => .refl _

theorem conditional_agrees {condition condition' whenTrue whenTrue' whenFalse whenFalse' : Operand}
    (onCondition : condition.Agrees loose condition') (onTrue : whenTrue.Agrees loose whenTrue')
    (onFalse : whenFalse.Agrees loose whenFalse') (node : Node) :
    Agrees loose (conditional node condition whenTrue whenFalse)
      (conditional node condition' whenTrue' whenFalse') := by
  obtain ⟨onCondition⟩ := onCondition
  obtain ⟨onTrue⟩ := onTrue
  obtain ⟨onFalse⟩ := onFalse
  exact (onCondition.both (onTrue.both onFalse)).bind fun _ => .refl _

theorem word_agrees {index index' : Operand} (on : index.Agrees loose index') (node : Node)
    (memory : NetId) : Agrees loose (word node memory index) (word node memory index') := by
  obtain ⟨agree⟩ := on
  apply Agrees.bind (.refl _)
  rintro ⟨found, words⟩
  dsimp only
  split
  · exact .refl _
  · exact agree.bind fun _ => .refl _

theorem fitArguments_congr (ids : List NetId) (ports : List Port)
    {arguments others : List Operand}
    (spans : arguments.map (·.expr.span) = others.map (·.expr.span)) :
    fitArguments (ids.zip (ports.zip arguments)) = fitArguments (ids.zip (ports.zip others)) := by
  induction arguments generalizing ids ports others with
  | nil =>
    rw [List.map_nil, eq_comm, List.map_eq_nil_iff] at spans
    rw [spans]
  | cons argument rest ih =>
    cases others with
    | nil => cases spans
    | cons other others =>
      rw [List.map_cons, List.map_cons, List.cons.injEq] at spans
      cases ids with
      | nil => rfl
      | cons id ids =>
        cases ports with
        | nil => rfl
        | cons port ports =>
          rw [List.zip_cons_cons, List.zip_cons_cons, List.zip_cons_cons, List.zip_cons_cons,
            fitArguments, fitArguments, spans.1, ih ids ports spans.2]

section Lists

variable {parts parts' : List Operand} (on : List.Forall₂ (Operand.Agrees loose) parts parts')
include on

theorem concat_agrees (node : Node) (repeats : Nat) :
    Agrees loose (concat node parts repeats) (concat node parts' repeats) := by
  apply Agrees.bind
  · apply Agrees.all
    rw [List.forall₂_map_left_iff, List.forall₂_map_right_iff]
    apply on.imp
    rintro _ _ ⟨agree⟩
    exact agree
  · intro ids
    exact .refl _

theorem call_agrees (node : Node) (function : FunctionId) (scope : ScopeId) :
    Agrees loose (call node function scope parts) (call node function scope parts') := by
  apply Agrees.bind (.refl _)
  rintro ⟨signature, name⟩
  dsimp only
  rw [on.length_eq]
  have spans : parts.map (·.expr.span) = parts'.map (·.expr.span) := by
    rw [← List.forall₂_eq_eq_eq, List.forall₂_map_left_iff, List.forall₂_map_right_iff]
    apply on.imp
    rintro _ _ ⟨_⟩
    rfl
  split
  · exact .refl _
  · apply Agrees.bind
    · apply Agrees.all
      rw [List.forall₂_iff_get]
      constructor
      · simp [on.length_eq]
      · intro position inside inside'
        simp only [List.length_mapIdx] at inside inside'
        simp only [List.get_eq_getElem, List.getElem_mapIdx]
        have each := on.get inside inside'
        simp only [List.get_eq_getElem] at each
        generalize parts[position] = argument, parts'[position] = argument' at each ⊢
        obtain ⟨agree⟩ := each
        exact agree.orReport _ _
    · intro ids
      simp only [callWith, fitArguments_congr _ _ spans]
      exact .refl _

end Lists

end Rule

namespace Expr

variable {loose : Prop} {older newer : Generation}

/-- Every rule hands on what its operands agree on. -/
theorem build_agrees (widens : older.Widens loose newer) (expr : Expr) :
    (expr.build older).Agrees loose (expr.build newer) := by
  have each {parts : List Expr}
      (agree : ∀ part ∈ parts, (part.build older).Agrees loose (part.build newer)) :
      List.Forall₂ (Operand.Agrees loose) (operands older parts) (operands newer parts) := by
    rw [operands_eq_map, operands_eq_map, List.forall₂_map_left_iff, List.forall₂_map_right_iff,
      List.forall₂_same]
    intro part member
    exact ⟨agree part member⟩
  induction expr using Expr.induction with
  | constant | real | signal | systemCall | parameter | scopeRef | event =>
    simp only [build]
    exact .refl _
  | unary node op operand onOperand =>
    simp only [build]
    exact Rule.unary_agrees ⟨onOperand⟩ node op
  | binary node op left right onLeft onRight =>
    simp only [build]
    exact Rule.binary_agrees ⟨onLeft⟩ ⟨onRight⟩ widens node op
  | concat node parts repeats onParts =>
    simp only [build]
    exact Rule.concat_agrees (each onParts) node repeats
  | resize node operand onOperand =>
    simp only [build]
    exact Rule.resize_agrees ⟨onOperand⟩ node
  | partSelect node vector base onVector onBase =>
    simp only [build]
    exact Rule.partSelect_agrees ⟨onVector⟩ ⟨onBase⟩ node
  | conditional node condition whenTrue whenFalse onCondition onTrue onFalse =>
    simp only [build]
    exact Rule.conditional_agrees ⟨onCondition⟩ ⟨onTrue⟩ ⟨onFalse⟩ node
  | word node memory index onIndex =>
    simp only [build]
    exact Rule.word_agrees ⟨onIndex⟩ node memory
  | call node function scope arguments onArguments =>
    simp only [build]
    exact Rule.call_agrees (each onArguments) node function scope

end Expr

theorem Generation.widens_of_rank_le {older newer : Generation} (order : older.rank ≤ newer.rank) :
    older.Widens True newer := by
  cases allows : older.allowsRealModulus with
  | false => exact .inr ⟨trivial, allows⟩
  | true =>
    left
    simp only [allowsRealModulus, decide_eq_true_eq] at allows
    simp only [allowsRealModulus, decide_eq_decide]
    omega

/-- An expression that comes to a net in one generation comes to the same net in a newer one, and
leaves the same design. Two generations that agree on remainders of real numbers cannot be told
apart, by any outcome. The limit on errors has no part in either. -/
theorem newer_generation_keeps_success (older newer : SynthesisSettings) (expr : Expr)
    (design : Design) :
    (older.generation.rank ≤ newer.generation.rank → ∀ net after,
      (synthesize older expr).runOn design = (.ok (some net), after) →
        (synthesize newer expr).runOn design = (.ok (some net), after)) ∧
    (older.generation.allowsRealModulus = newer.generation.allowsRealModulus →
      (synthesize older expr).runOn design = (synthesize newer expr).runOn design) := by
  constructor
  · intro order net after ran
    have same := expr.build_agrees (Generation.widens_of_rank_le order) design fun _ =>
      ⟨net, after, ran⟩
    exact same.symm.trans ran
  · intro alike
    have widens : older.generation.Widens False newer.generation := .inl alike
    exact expr.build_agrees widens design False.elim

/-- A remainder of vectors is the same net in every generation, and one of real numbers is refused
alike by the two older ones. -/
theorem newer_generation_keeps_success_remainders :
    let design := Design.reached "top" [.addSignal .root "a" (.vector 4 false) .nowhere,
      .addSignal .root "r" ⟨1, .real, true⟩ .nowhere]
    let vectors := Expr.binary ⟨.vector 4 false, .nowhere⟩ (.arithmetic .modulo)
      (.signal ⟨.vector 4 false, .nowhere⟩ ⟨0⟩) (.signal ⟨.vector 4 false, .nowhere⟩ ⟨0⟩)
    let reals := Expr.binary ⟨⟨1, .real, true⟩, .nowhere⟩ (.arithmetic .modulo)
      (.signal ⟨⟨1, .real, true⟩, .nowhere⟩ ⟨1⟩) (.signal ⟨⟨1, .real, true⟩, .nowhere⟩ ⟨1⟩)
    (∃ net after, (synthesize ⟨.v1995, some 1⟩ vectors).runOn design = (.ok (some net), after) ∧
      (synthesize ⟨.v2001x, none⟩ vectors).runOn design = (.ok (some net), after)) ∧
    (synthesize ⟨.v1995, some 1⟩ reals).runOn design =
      (synthesize ⟨.v2001, none⟩ reals).runOn design := by
  intro design vectors reals
  constructor
  · have result : ((synthesize ⟨.v1995, some 1⟩ vectors).runOn design).1.toOption =
        some (some ⟨2⟩) := by
      decide +kernel
    rcases ran : (synthesize ⟨.v1995, some 1⟩ vectors).runOn design with ⟨outcome, after⟩
    rw [ran] at result
    cases outcome with
    | error stop => cases result
    | ok built =>
      obtain rfl := Option.some.inj result
      exact ⟨⟨2⟩, after, rfl, (newer_generation_keeps_success ⟨.v1995, some 1⟩ ⟨.v2001x, none⟩
        vectors design).1 (by decide) _ _ ran⟩
  · exact (newer_generation_keeps_success ⟨.v1995, some 1⟩ ⟨.v2001, none⟩ reals design).2 rfl

end NetSynth
