import NetSynth.Proofs.MirroredRuns
import NetSynth.Proofs.Order

/-! No rule looks at what was built before. From aligned designs it takes the same course, and so
does every expression that names nets of the first design alone. -/
namespace NetSynth

variable {first later : Design}

/-- The expression names nets and functions of the design alone. -/
structure Design.Covers (design : Design) (expr : Expr) : Prop where
  nets : ∀ id ∈ expr.nets, (design.net? id).isSome
  functions : ∀ id ∈ expr.functions, design.NamesFunction id

namespace Attempt

/-- From aligned designs the attempt comes to corresponding nets, or fails or stops in both. -/
def Repeats (first later : Design) (attempt : Attempt NetId) : Prop :=
  Mirrors first later attempt attempt (first.Renames later)

namespace Repeats

/-- The device of a comparison is chosen by the types of its operands alone. -/
theorem comparer (rename : NetId → NetId) (op : Comparison) (pair : OperandPair) (width : Nat)
    (signed : Bool) (a b out : NetId) :
    let renamed : OperandPair := ⟨pair.real, rename pair.left, rename pair.right⟩
    let device := Rule.comparer op pair width signed a b out
    Rule.comparer op renamed width signed (rename a) (rename b) (rename out) =
      (device.1, device.2.map (.map rename)) := by
  simp only [Rule.comparer]
  generalize (if (!pair.real && width == 1) = true then op.bitGate? else none) = gate
  cases gate <;> rfl

/-- Numbered pins are renamed one by one. -/
theorem numbered {α : Type} {rename : NetId → NetId} {move : α → α} (refOf : α → NetRef)
    (moves : ∀ item, refOf (move item) = (refOf item).map rename) (pin : Nat → PinName)
    (items : List α) :
    ((items.map move).mapIdx fun index item => (⟨pin index, refOf item⟩ : Connection)) =
      (items.mapIdx fun index item => (⟨pin index, refOf item⟩ : Connection)).map
        (.map rename) := by
  apply List.ext_getElem
  · simp
  · simp [Connection.map, moves]

theorem gatePins (rename : NetId → NetId) (out : NetId) (inputs : List NetRef) :
    Rule.gatePins (rename out) (inputs.map (.map rename)) =
      (Rule.gatePins out inputs).map (.map rename) :=
  congrArg (List.cons _) (numbered (fun ref => ref) (fun _ => rfl) .input inputs)

theorem logicalInputs (op : Logical) (a b : NetId) (widthA widthB : Nat) :
    Build.Mirrors first later (Rule.logicalInputs op a b widthA widthB)
      (Rule.logicalInputs op (first.rename later a) (first.rename later b) widthA widthB)
      fun inputs inputs' => inputs' = inputs.map (.map (first.rename later)) := by
  cases op with
  | or =>
    apply Build.Mirrors.pure
    simp [Rule.bitRefs, Function.comp_def, NetRef.map]
  | and => exact .ite (fun _ => .pure rfl) fun _ => .fail _ _

theorem shiftBy (node : Node) (op : Shift) (amount : Nat) (id : NetId) {value value' : Net}
    (same : value.Alike value') : Build.Mirrors first later (Rule.shiftBy node op amount id value)
      (Rule.shiftBy node op amount (first.rename later id) value') (first.Renames later) := by
  rw [Rule.shiftBy, Rule.shiftBy, same.type, same.scope]
  refine .ite (fun _ => .pure rfl) fun _ => .ite (fun _ => .constant _ _ _ _) fun _ => ?_
  apply (Build.Mirrors.constant _ _ _ _).bind
  rintro zeros _ rfl
  refine Build.Mirrors.bind (.driveOne (fun _ => rfl) fun _ => rfl) ?_
  rintro part _ rfl
  cases op with
  | left => exact .driveOne (fun _ => rfl) fun _ => rfl
  | right => exact .driveOne (fun _ => rfl) fun _ => rfl
  | arithmeticRight => exact .driveOne (fun _ => rfl) fun _ => rfl

theorem buildIn {operand : Operand} (onOperand : Repeats first later operand.build) (real : Bool) :
    Repeats first later (operand.buildIn real) := by
  rw [Operand.buildIn]
  split
  · split
    · exact .lift (.literal _ _)
    · exact .reject _ _
  · exact onOperand

section Binary

variable {left right : Operand} (onLeft : Repeats first later left.build)
  (onRight : Repeats first later right.build)
include onLeft onRight

theorem pair : Mirrors first later (OperandPair.build left right) (OperandPair.build left right)
    fun args args' =>
      args' = ⟨args.real, first.rename later args.left, first.rename later args.right⟩ := by
  apply (Mirrors.both (buildIn onLeft _) (buildIn onRight _)).bind
  rintro ⟨l, r⟩ ⟨_, _⟩ ⟨rfl, rfl⟩
  exact .pure rfl

theorem sum (node : Node) (op : Direction) :
    Repeats first later (Rule.sum node op left right) := by
  apply (pair onLeft onRight).bind
  rintro args _ rfl
  apply Mirrors.lookBoth
  intro l l' r r' sameL sameR
  rw [sameL.type, sameL.scope, sameR.type]
  refine .ite (fun _ => .fail _ _) fun _ => ?_
  apply (Mirrors.lift (.pad _ _ _)).bind
  rintro a _ rfl
  apply (Mirrors.lift (.pad _ _ _)).bind
  rintro b _ rfl
  exact .lift (.driveOne (fun _ => rfl) fun _ => rfl)

theorem bitwise (node : Node) (op : Bitwise) :
    Repeats first later (Rule.bitwise node op left right) := by
  apply (Mirrors.both onLeft onRight).bind
  rintro ⟨a, b⟩ ⟨_, _⟩ ⟨rfl, rfl⟩
  apply Mirrors.lookBoth
  intro l l' r r' sameL sameR
  rw [sameL.type, sameL.scope, sameR.type]
  refine .ite (fun _ => .reject _ _) fun _ => .ite (fun _ => .reject _ _) fun _ => ?_
  exact .lift (.driveOne (fun _ => rfl) fun _ => rfl)

theorem compare (node : Node) (op : Comparison) :
    Repeats first later (Rule.compare node op left right) := by
  apply (pair onLeft onRight).bind
  rintro args _ rfl
  refine .ite (fun _ => .reject _ _) fun _ => ?_
  apply Mirrors.lookBoth
  intro l l' r r' sameL sameR
  rw [sameL.type, sameL.scope, sameR.type]
  apply (Mirrors.lift (.pad _ _ _)).bind
  rintro a _ rfl
  apply (Mirrors.lift (.pad _ _ _)).bind
  rintro b _ rfl
  refine .lift (.driveOne (fun out => ?_) fun out => ?_)
  · rw [comparer]
  · rw [comparer]

theorem arithmetic (generation : Generation) (node : Node) (op : Arithmetic) :
    Repeats first later (Rule.arithmetic generation node op left right) := by
  apply (pair onLeft onRight).bind
  rintro args _ rfl
  refine .ite (fun _ => .reject _ _) fun _ => ?_
  apply Mirrors.lookBoth
  intro l l' r r' sameL sameR
  rw [sameL.type, sameL.scope, sameR.type]
  exact .lift (.driveOne (fun _ => rfl) fun _ => rfl)

theorem logical (node : Node) (op : Logical) :
    Repeats first later (Rule.logical node op left right) := by
  apply (Mirrors.both onLeft onRight).bind
  rintro ⟨a, b⟩ ⟨_, _⟩ ⟨rfl, rfl⟩
  apply Mirrors.lookBoth
  intro l l' r r' sameL sameR
  rw [sameL.type, sameL.scope, sameR.type]
  refine .ite (fun _ => .reject _ _) fun _ => .lift (.drive fun out => ?_)
  apply (logicalInputs op a b _ _).bind
  rintro inputs _ rfl
  refine .pure ⟨?_, gatePins _ _ _⟩
  rw [List.length_map]

theorem shift (node : Node) (op : Shift) :
    Repeats first later (Rule.shift node op left right) := by
  apply onLeft.bind
  rintro id _ rfl
  apply (Mirrors.lift (.net _)).bind
  intro value value' same
  rw [same.type]
  refine .ite (fun _ => .reject _ _) fun _ => .ite (fun _ => .fail _ _) fun _ => ?_
  split
  · exact .lift (shiftBy node op _ id same)
  · apply onRight.bind
    rintro amount _ rfl
    refine .lift ((Build.Mirrors.net _).bind fun distance distance' sameDistance => ?_)
    rw [same.scope, sameDistance.type]
    exact .driveOne (fun _ => rfl) fun _ => rfl

theorem binary (generation : Generation) (node : Node) (op : BinaryOp) :
    Repeats first later (Rule.binary generation node op left right) := by
  cases op with
  | sum op => exact sum onLeft onRight node op
  | bitwise op => exact bitwise onLeft onRight node op
  | compare op => exact compare onLeft onRight node op
  | arithmetic op => exact arithmetic onLeft onRight generation node op
  | logical op => exact logical onLeft onRight node op
  | shift op => exact shift onLeft onRight node op

end Binary

theorem unary {operand : Operand} (onOperand : Repeats first later operand.build) (node : Node)
    (op : UnaryOp) : Repeats first later (Rule.unary node op operand) := by
  have onVector : ∀ finish : NetId → Net → Build NetId,
      (∀ id input input', input.Alike input' → Build.Mirrors first later (finish id input)
        (finish (first.rename later id) input') (first.Renames later)) →
      Repeats first later (Rule.onVector node op operand finish) := by
    intro finish finishes
    apply onOperand.bind
    rintro id _ rfl
    apply (Mirrors.lift (.net _)).bind
    intro input input' same
    rw [same.type]
    exact .ite (fun _ => .reject _ _) fun _ => .lift (finishes id input input' same)
  have fold : ∀ mode id input input', input.Alike input' → Build.Mirrors first later
      (Rule.fold node mode id input) (Rule.fold node mode (first.rename later id) input')
      (first.Renames later) := by
    intro mode id input input' same
    rw [Rule.fold, Rule.fold, same.type, same.scope]
    exact .driveOne (fun _ => rfl) fun _ => rfl
  cases op with
  | negate => exact .reject _ _
  | invert =>
    apply onVector
    intro id input input' same
    rw [Rule.invert, Rule.invert, same.type, same.scope]
    exact .driveOne (fun _ => rfl) fun _ => rfl
  | reduce mode => exact onVector _ (fold _)
  | logicalNot => exact onVector _ (fold _)

/-- Attempts that repeat in turn come to lists that correspond. -/
theorem all {attempts : List (Attempt NetId)}
    (each : ∀ attempt ∈ attempts, Repeats first later attempt) :
    Mirrors first later (Attempt.all attempts) (Attempt.all attempts)
      fun ids ids' => ids' = ids.map (first.rename later) := by
  refine (Mirrors.all (List.forall₂_same.mpr each)).imp fun ids ids' same => ?_
  induction same with
  | nil => rfl
  | cons same _ ih => rw [same, ih, List.map_cons]

theorem concat {parts : List Operand} (each : ∀ part ∈ parts, Repeats first later part.build)
    (node : Node) (repeats : Nat) : Repeats first later (Rule.concat node parts repeats) := by
  apply (all (List.forall_mem_map.mpr each)).bind
  rintro ids _ rfl
  have renamed : (List.replicate repeats ((ids.map (first.rename later)).reverse.map
      NetRef.whole)).flatten = (List.replicate repeats (ids.reverse.map NetRef.whole)).flatten.map
        (.map (first.rename later)) := by
    simp [List.map_flatten, List.map_reverse, Function.comp_def, NetRef.map]
  cases ids with
  | nil => exact .fail _ _
  | cons top rest =>
    apply (Mirrors.lift (.net _)).bind
    intro leftmost leftmost' same
    rw [same.type, same.scope]
    refine .lift (.driveOne (fun out => ?_) fun out => ?_)
    · rw [renamed, List.length_map]
    · rw [renamed, gatePins]

theorem resize {operand : Operand} (onOperand : Repeats first later operand.build)
    (node : Node) : Repeats first later (Rule.resize node operand) := by
  apply onOperand.bind
  rintro id _ rfl
  apply (Mirrors.lift (.net _)).bind
  intro source source' same
  rw [same.type]
  exact .ite (fun _ => .lift (.extend _ _ _ _)) fun _ => .lift (.crop _ _ _)

theorem partBase {base : Operand} (onBase : Repeats first later base.build) (node : Node)
    (width : Nat) : Mirrors first later (Rule.partBase node width base)
      (Rule.partBase node width base) fun start start' =>
        start' = (start.1, start.2.map (first.rename later)) := by
  rw [Rule.partBase]
  split
  · exact .ite (fun _ => .reject _ _) fun _ => .pure rfl
  · apply onBase.bind
    rintro id _ rfl
    refine (Mirrors.lift (.net _)).bind fun source source' same => .pure ?_
    rw [same.type]
    rfl

theorem partSelect {vector base : Operand} (onVector : Repeats first later vector.build)
    (onBase : Repeats first later base.build) (node : Node) :
    Repeats first later (Rule.partSelect node vector base) := by
  apply onVector.bind
  rintro id _ rfl
  apply (Mirrors.lift (.net _)).bind
  intro source source' same
  rw [same.type, same.scope]
  apply (partBase onBase node source.width).bind
  rintro ⟨start, startNet⟩ _ rfl
  refine .lift (.driveOne (fun _ => rfl) fun part => ?_)
  cases startNet <;> rfl

theorem choose (node : Node) (condition onTrue onFalse : NetId) (trueSpan falseSpan : Span)
    {choice choice' : Net} (same : choice.Alike choice') (domain : Domain) :
    Build.Mirrors first later
      (Rule.choose node condition onTrue onFalse trueSpan falseSpan choice domain)
      (Rule.choose node (first.rename later condition) (first.rename later onTrue)
        (first.rename later onFalse) trueSpan falseSpan choice' domain) (first.Renames later) := by
  rw [Rule.choose, Rule.choose, same.type, same.scope]
  refine .ite (fun _ => .fail _ _) fun _ => ?_
  apply (Build.Mirrors.fit _ _ _).bind
  rintro t _ rfl
  apply (Build.Mirrors.fit _ _ _).bind
  rintro f _ rfl
  apply (Build.Mirrors.net _).bind
  intro fitted fitted' sameFitted
  rw [sameFitted.type]
  exact .driveOne (fun _ => rfl) fun _ => rfl

theorem conditional {condition whenTrue whenFalse : Operand}
    (onCondition : Repeats first later condition.build)
    (onTrue : Repeats first later whenTrue.build)
    (onFalse : Repeats first later whenFalse.build) (node : Node) :
    Repeats first later (Rule.conditional node condition whenTrue whenFalse) := by
  apply (Mirrors.both onCondition (.both onTrue onFalse)).bind
  rintro ⟨c, t, f⟩ ⟨_, _, _⟩ ⟨rfl, rfl, rfl⟩
  apply Mirrors.lookBoth
  intro trueNet trueNet' falseNet falseNet' sameTrue sameFalse
  rw [sameTrue.type, sameFalse.type]
  refine .ite (fun _ => .reject _ _) fun _ => .ite (fun _ => .reject _ _) fun _ => ?_
  exact (Mirrors.lift (.net _)).bind fun choice choice' same => .lift (choose _ _ _ _ _ _ same _)

/-- A memory of the first design has the same words in both, and they are old. -/
theorem memoryOf (stores : first.StoresWords) {memory : NetId}
    (known : (first.net? memory).isSome) :
    Build.Mirrors first later (Rule.memoryOf memory) (Rule.memoryOf memory) fun found found' =>
      found.1.Alike found'.1 ∧ found'.2 = found.2 ∧
        ∀ id ∈ found.2.words, first.rename later id = id := by
  intro one two aligned
  obtain ⟨net, old⟩ := Option.isSome_iff_exists.mp known
  obtain ⟨netOne, inOne, _, _, memoryOne⟩ := aligned.growsOne.net old
  have alike := aligned.nets memory
  rw [Design.rename_old (first.net?_lt old), inOne] at alike
  generalize inTwo : two.net? memory = found at alike
  cases alike with
  | some same =>
    simp only [Rule.memoryOf, Build.ends_bind, Build.ends_get, inOne, inTwo]
    rw [same.memory]
    cases words : netOne.memory with
    | none => exact aligned
    | some words =>
      refine ⟨aligned, same, rfl, fun id member => ?_⟩
      obtain ⟨word, oldWord⟩ :=
        Option.isSome_iff_exists.mp (stores old (memoryOne.symm.trans words) id member)
      exact Design.rename_old (first.net?_lt oldWord)

theorem word (stores : first.StoresWords) {memory : NetId} (known : (first.net? memory).isSome)
    {index : Operand} (onIndex : Repeats first later index.build) (node : Node) :
    Repeats first later (Rule.word node memory index) := by
  apply (Mirrors.lift (memoryOf stores known)).bind
  rintro ⟨found, words⟩ ⟨found', _⟩ ⟨same, rfl, fixed⟩
  dsimp only at same fixed ⊢
  split
  · split
    · rename_i id chosen
      obtain ⟨integer, _, addressed⟩ := Option.bind_eq_some_iff.mp chosen
      obtain ⟨address, _, stored⟩ := Option.bind_eq_some_iff.mp addressed
      exact .pure (fixed id (Array.mem_of_getElem? stored)).symm
    · exact .fail _ _
  · apply onIndex.bind
    rintro address _ rfl
    refine .lift ((Build.Mirrors.net _).bind fun carrier carrier' sameCarrier => ?_)
    rw [same.type, same.scope, sameCarrier.type]
    exact .driveOne (fun _ => rfl) fun _ => rfl

theorem fitArguments (ids : List NetId) (arguments : List (Port × Operand)) :
    Build.Mirrors first later (Rule.fitArguments (ids.zip arguments))
      (Rule.fitArguments ((ids.map (first.rename later)).zip arguments))
      fun fitted fitted' => fitted' = fitted.map (first.rename later) := by
  induction ids generalizing arguments with
  | nil => exact .pure rfl
  | cons id ids ih =>
    cases arguments with
    | nil => exact .pure rfl
    | cons argument arguments =>
      apply (Build.Mirrors.fit id _ _).bind
      rintro fitted _ rfl
      apply (ih arguments).bind
      rintro rest _ rfl
      exact .pure rfl

theorem callWith (node : Node) (signature : FunctionSignature) (scope : ScopeId)
    (arguments : List Operand) (ids : List NetId) : Build.Mirrors first later
      (Rule.callWith node signature scope arguments ids)
      (Rule.callWith node signature scope arguments (ids.map (first.rename later)))
      (first.Renames later) := by
  refine .drive fun out => (fitArguments ids _).bind ?_
  rintro fitted _ rfl
  exact .pure ⟨rfl, congrArg (List.cons _) (numbered .whole (fun _ => rfl) .argument fitted)⟩

/-- Functions and their names are those of the first design, in both. -/
theorem functionOf {id : FunctionId} (named : first.NamesFunction id) :
    Build.Mirrors first later (Rule.functionOf id) (Rule.functionOf id)
      fun found found' => found' = found := by
  intro one two aligned
  simp only [Build.ends_functionOf, aligned.function?]
  cases known : one.function? id with
  | none => exact aligned
  | some signature =>
    rw [aligned.growsOne.function] at known
    obtain ⟨text, old⟩ := Option.isSome_iff_exists.mp (named signature known)
    obtain ⟨inOne, inTwo⟩ := aligned.text? old
    simp only [inOne, inTwo]
    exact ⟨aligned, trivial⟩

theorem call {function : FunctionId} (named : first.NamesFunction function)
    {arguments : List Operand} (each : ∀ argument ∈ arguments, Repeats first later argument.build)
    (node : Node) (scope : ScopeId) :
    Repeats first later (Rule.call node function scope arguments) := by
  apply (Mirrors.lift (functionOf named)).bind
  rintro ⟨signature, name⟩ _ rfl
  refine .ite (fun _ => .fail _ _) fun _ => ?_
  have reported : ∀ attempt ∈ arguments.mapIdx fun position argument =>
      argument.build.orReport (.unbuiltArgument position name) argument.expr.span,
      Repeats first later attempt := by
    intro attempt member
    obtain ⟨position, inside, rfl⟩ := List.mem_mapIdx.mp member
    exact (each _ (List.getElem_mem inside)).orReport _ _
  apply (all reported).bind
  rintro ids _ rfl
  exact .lift (callWith node signature scope arguments ids)

/-- An expression over nets and functions of the first design takes the same course from aligned
designs. -/
theorem build (stores : first.StoresWords) (generation : Generation) {expr : Expr}
    (covers : first.Covers expr) : Repeats first later (expr.build generation) := by
  obtain ⟨known, named⟩ := covers
  induction expr using Expr.induction with
  | constant node value => exact .lift (.constant _ _ _ _)
  | real node value => exact .lift (.literal _ _)
  | unary node op operand ih => exact unary (ih known named) node op
  | binary node op left right ihLeft ihRight =>
    simp only [Expr.nets, Expr.functions, List.forall_mem_append] at known named
    exact binary (ihLeft known.1 named.1) (ihRight known.2 named.2) generation node op
  | concat node parts repeats ih =>
    simp only [Expr.nets, Expr.netsOfAll_eq_flatMap, List.forall_mem_flatMap] at known
    simp only [Expr.functions, Expr.functionsOfAll_eq_flatMap, List.forall_mem_flatMap] at named
    refine concat (fun part member => ?_) node repeats
    rw [Expr.operands_eq_map] at member
    obtain ⟨part, listed, rfl⟩ := List.mem_map.mp member
    exact ih part listed (known part listed) (named part listed)
  | resize node operand ih => exact resize (ih known named) node
  | partSelect node vector base ihVector ihBase =>
    simp only [Expr.nets, Expr.functions, List.forall_mem_append] at known named
    exact partSelect (ihVector known.1 named.1) (ihBase known.2 named.2) node
  | conditional node condition whenTrue whenFalse ihCondition ihTrue ihFalse =>
    simp only [Expr.nets, Expr.functions, List.forall_mem_append] at known named
    exact conditional (ihCondition known.1 named.1) (ihTrue known.2.1 named.2.1)
      (ihFalse known.2.2 named.2.2) node
  | signal node net =>
    obtain ⟨found, old⟩ := Option.isSome_iff_exists.mp (known net (by simp [Expr.nets]))
    exact .pure (Design.rename_old (first.net?_lt old)).symm
  | word node memory index ih =>
    simp only [Expr.nets, List.forall_mem_cons] at known
    exact word stores known.1 (ih known.2 named) node
  | systemCall node name arguments _ => exact .reject _ _
  | call node function scope arguments ih =>
    simp only [Expr.nets, Expr.netsOfAll_eq_flatMap, List.forall_mem_flatMap] at known
    simp only [Expr.functions, Expr.functionsOfAll_eq_flatMap, List.forall_mem_cons,
      List.forall_mem_flatMap] at named
    refine call named.1 (fun argument member => ?_) node scope
    rw [Expr.operands_eq_map] at member
    obtain ⟨argument, listed, rfl⟩ := List.mem_map.mp member
    exact ih argument listed (known argument listed) (named.2 argument listed)
  | parameter node name => exact .reject _ _
  | scopeRef node scope => exact .reject _ _
  | event node => exact .reject _ _

end Repeats
end Attempt
end NetSynth
