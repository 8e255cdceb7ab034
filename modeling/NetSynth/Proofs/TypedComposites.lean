import NetSynth.Proofs.TypedRules

/-! The rules for concatenations, selections, conditionals, words of a memory and calls, on operands
of the types that they ask for. -/
namespace NetSynth.Typed

open Conduct

variable {start : Design}

/-- The widths of the inputs of a concatenation, which has its parts from right to left. -/
theorem sum_inputs {design : Design} {parts : List Operand} {ids : List NetId} (repeats : Nat)
    (typed : List.Forall₂ (fun id (part : Operand) => design.Carries id part.expr.netType) ids parts) :
    ((List.replicate repeats (ids.reverse.map NetRef.whole)).flatten.map design.shownWidth).sum =
      repeats * (parts.map (·.expr.node.width)).sum := by
  have once : ids.map (fun id => design.shownWidth (.whole id)) =
      parts.map (·.expr.node.width) := by
    induction typed with
    | nil => rfl
    | cons carries _ ih => rw [List.map_cons, List.map_cons, ih, carries.sees.width]; rfl
  rw [List.map_flatten, List.sum_flatten, List.map_replicate, List.map_replicate,
    List.sum_replicate_nat, List.map_map, List.map_reverse, List.sum_reverse, ← once]
  rfl

theorem resolved {design : Design} {parts : List Operand} {ids : List NetId}
    (typed : List.Forall₂ (fun id (part : Operand) => design.Carries id part.expr.netType) ids parts)
    {id : NetId} (member : id ∈ ids) : design.Resolves id := by
  induction typed with
  | nil => cases member
  | cons carries _ ih =>
    rcases List.mem_cons.mp member with rfl | member
    · exact carries.sees.resolves
    · exact ih member

theorem concat {parts : List Operand} (each : ∀ part ∈ parts, Yields start part) {node : Node}
    {repeats : Nat} (some : parts ≠ []) (vectors : ∀ part ∈ parts, part.expr.node.domain = .logic)
    (logic : node.domain = .logic)
    (width : node.width = repeats * (parts.map (·.expr.node.width)).sum) :
    unstopped.Attempts start (Rule.concat node parts repeats) fun after id =>
      after.Carries id node.toValueType := by
  have built : List.Forall₂ (fun attempt (part : Operand) => unstopped.Attempts start attempt
      fun after id => after.Carries id part.expr.netType) (parts.map (·.build)) parts :=
    List.forall₂_map_left_iff.mpr (List.forall₂_same.mpr each)
  refine (Attempts.allOf (fun _ => Design.Carries.lasts _) built).bind
    fun ids mid grown typed => ?_
  cases typed with
  | nil => exact absurd rfl some
  | @cons first part rest parts onFirst onRest =>
    have typed : List.Forall₂ (fun id (part : Operand) => mid.Carries id part.expr.netType)
        (first :: rest) (part :: parts) := .cons onFirst onRest
    apply (Attempts.lift (look onFirst)).bind
    rintro leftmost mid₁ grown₁ ⟨_, same, place⟩
    rw [(domain_of same).trans (vectors part List.mem_cons_self), ← logic]
    refine Attempts.lift (drive_known place (by simp [logic]) fun out after more onOut => ?_)
    have typed : List.Forall₂ (fun id (part : Operand) => after.Carries id part.expr.netType)
        (first :: rest) (part :: parts) :=
      typed.imp fun id part carries => carries.grows (grown₁.trans more)
    refine Design.keeps_concat onOut.sees (fun ref member => ?_)
      ((sum_inputs repeats typed).trans width.symm)
    simp only [List.mem_flatten, List.mem_replicate] at member
    obtain ⟨_, ⟨_, rfl⟩, member⟩ := member
    obtain ⟨id, listed, rfl⟩ := List.mem_map.mp member
    exact resolved typed (List.mem_reverse.mp listed)

theorem resize {operand : Operand} (yields : Yields start operand) {node : Node}
    (vector : operand.expr.node.domain = .logic) (logic : node.domain = .logic) :
    unstopped.Attempts start (Rule.resize node operand) fun after id =>
      after.Carries id (Expr.resize node operand.expr).netType := by
  rw [Rule.resize]
  refine Attempts.bind yields fun id mid grown carries => ?_
  apply (Attempts.lift (look carries)).bind
  rintro source mid₁ grown₁ ⟨_, same, _⟩
  have carries := carries.grows grown₁
  have bits : operand.expr.netType.domain ≠ .real := by simp [Expr.netType, vector]
  rw [width_of same]
  split
  · rename_i narrow
    rw [Expr.netType_resize, if_pos narrow, logic, ← vector]
    exact Attempts.lift (extend carries narrow bits _ _)
  · rename_i wide
    have fits : min operand.expr.node.width node.width = node.width := by omega
    have cropped : operand.expr.netType.cropTo node.width =
        ⟨node.width, .logic, operand.expr.netSigned⟩ := by
      simp only [ValueType.cropTo, Expr.netType, vector, fits]
    rw [Expr.netType_resize, if_neg wide, logic, ← cropped]
    exact Attempts.lift (crop carries _ _ fun real => absurd real bits)

/-- The base of a part-select is fixed, or a net that carries it. -/
theorem partBase {base : Operand} (yields : Yields start base) (node : Node) (width : Nat) :
    unstopped.Attempts start (Rule.partBase node width base) fun after result =>
      (∃ offset, result = (.fixed offset, none)) ∨
        ∃ id type, result = (.dynamic type.width, some id) ∧ after.Carries id type := by
  rw [Rule.partBase]
  split
  · split
    · exact Attempts.reject _ _
    · exact Attempts.pure fun _ _ => .inl ⟨_, rfl⟩
  · refine Attempts.bind yields fun id mid grown carries => ?_
    apply (Attempts.lift (look carries)).bind
    rintro source mid₁ grown₁ ⟨_, same, _⟩
    refine Attempts.pure fun after more => .inr ⟨id, source.toValueType, rfl, ?_⟩
    exact same ▸ carries.grows (grown₁.trans more)

theorem partSelect {vector base : Operand} (onVector : Yields start vector)
    (onBase : Yields start base) {node : Node} (bits : vector.expr.node.domain = .logic)
    (logic : node.domain = .logic) :
    unstopped.Attempts start (Rule.partSelect node vector base) fun after id =>
      after.Carries id node.toValueType := by
  rw [Rule.partSelect]
  refine Attempts.bind onVector fun id mid grown carries => ?_
  apply (Attempts.lift (look carries)).bind
  rintro source mid₁ grown₁ ⟨_, same, place⟩
  refine (partBase (onBase.later (grown.trans grown₁)) node source.width).bind ?_
  intro result mid₂ grown₂ found
  have carries := carries.grows (grown₁.trans grown₂)
  have place := grown₂.scope place
  rw [← same] at carries
  rw [(domain_of same).trans bits, ← logic]
  rcases found with ⟨offset, rfl⟩ | ⟨start, type, rfl, onStart⟩
  · refine Attempts.lift (drive_known place (by simp [logic]) fun out after more onOut => ?_)
    exact Design.keeps_fixedPart offset (carries.grows more).sees onOut.sees
  · refine Attempts.lift (drive_known place (by simp [logic]) fun out after more onOut => ?_)
    exact Design.keeps_dynamicPart (carries.grows more).sees onOut.sees (onStart.grows more).sees

theorem choose {condition onTrue onFalse : NetId} {node : Node} {choice : Net} {domain : Domain}
    {typeC typeT typeF : ValueType} (trueSpan falseSpan : Span)
    (onC : start.Carries condition typeC) (onT : start.Carries onTrue typeT)
    (onF : start.Carries onFalse typeF) (place : (start.scope? choice.scope).isSome)
    (same : choice.toValueType = typeC) (single : typeC.width = 1)
    (domainT : typeT.domain = domain) (domainF : typeF.domain = domain)
    (declared : node.domain = domain) (scalar : node.domain = .real → node.width = 1) :
    unstopped.Builds start
      (Rule.choose node condition onTrue onFalse trueSpan falseSpan choice domain)
      fun after id => after.Carries id node.toValueType := by
  subst same
  rw [Rule.choose, if_neg (by omega)]
  have scalarT : typeT.domain = .real → node.width = 1 := fun real =>
    scalar (declared.trans (domainT.symm.trans real))
  have scalarF : typeF.domain = .real → node.width = 1 := fun real =>
    scalar (declared.trans (domainF.symm.trans real))
  refine (fit onT scalarT _).bind fun t mid₁ grown₁ onT => ?_
  refine (fit (onF.grows grown₁) scalarF _).bind fun f mid₂ grown₂ onF => ?_
  have onT := onT.grows grown₂
  apply (look onT).bind
  rintro net mid₃ grown₃ ⟨_, sameT, _⟩
  have width : net.width = node.width := by rw [sameT]
  rw [width, ← declared]
  have place := ((grown₁.trans grown₂).trans grown₃).scope place
  refine drive_known place scalar fun out after more onOut => ?_
  have seesC := (onC.grows (((grown₁.trans grown₂).trans grown₃).trans more)).sees
  have seesT := (onT.grows (grown₃.trans more)).sees
  have seesF := (onF.grows (grown₃.trans more)).sees
  simp only [domainT, domainF, ← declared] at seesT seesF
  rw [single] at seesC
  exact Design.keeps_mux seesC seesF seesT onOut.sees

theorem conditional {condition whenTrue whenFalse : Operand} (onCondition : Yields start condition)
    (onTrue : Yields start whenTrue) (onFalse : Yields start whenFalse) {node : Node}
    (single : condition.expr.node.width = 1)
    (type : whenTrue.expr.node.domain = whenFalse.expr.node.domain → whenTrue.expr.IsNumber →
      node.domain = whenTrue.expr.node.domain ∧ (node.domain = .real → node.width = 1)) :
    unstopped.Attempts start (Rule.conditional node condition whenTrue whenFalse) fun after id =>
      after.Carries id node.toValueType := by
  rw [Rule.conditional]
  refine (Attempts.both (Design.Carries.lasts _) onCondition (both onTrue onFalse)).bind ?_
  rintro ⟨c, t, f⟩ mid grown ⟨onC, onT, onF⟩
  refine lookBoth onT onF fun netT netF mid₁ grown₁ onT onF sameT sameF _ => ?_
  split
  · exact Attempts.reject _ _
  · rename_i equal
    split
    · exact Attempts.reject _ _
    · rename_i typed
      have equal := Decidable.not_not.mp equal
      obtain ⟨domain, scalar⟩ := type
        ((domain_of sameT).symm.trans (equal.trans (domain_of sameF)))
        (fun untyped => typed ((domain_of sameT).trans untyped))
      have onC := onC.grows grown₁
      apply (Attempts.lift (look onC)).bind
      rintro choice mid₂ grown₂ ⟨_, same, place⟩
      exact Attempts.lift (choose _ _ (onC.grows grown₂) (onT.grows grown₂) (onF.grows grown₂) place
        same single rfl equal.symm (domain.trans (domain_of sameT).symm) scalar)

/-- An index between the bounds of a memory names one of its words. -/
theorem word_inside {words : MemoryWords}
    (count : words.words.size = (words.last - words.first).natAbs + 1) {index : Int}
    (low : min words.first words.last ≤ index) (high : index ≤ max words.first words.last) :
    ∃ id ∈ words.words, words.word? index = some id := by
  let offset := if words.first ≤ words.last then index - words.first else words.first - index
  have inside : 0 ≤ offset ∧ offset < words.words.size := by
    simp only [offset, count]
    split <;> omega
  have bound : offset.toNat < words.words.size := by omega
  refine ⟨words.words[offset.toNat], Array.getElem_mem bound, ?_⟩
  have address : words.address? index = some offset.toNat := if_pos inside
  rw [MemoryWords.word?, address]
  exact Array.getElem?_eq_getElem bound

section Word

variable {memory : NetId} {net : Net} {words : MemoryWords}
  (known : start.net? memory = some net) (named : net.memory = some words)
include known named

theorem memoryOf : unstopped.Builds start (Rule.memoryOf memory) fun _ result =>
    result.1.toValueType = net.toValueType ∧ result.1.scope = net.scope ∧ result.2 = words := by
  intro pending design grown holds
  obtain ⟨found, stored, type, scope, same⟩ := grown.net known
  simp only [Rule.memoryOf, Build.ends_bind, Build.ends_get, stored, same, named]
  exact ⟨.refl _, holds, type, scope, rfl⟩

theorem word (described : start.WordsOf net words) (place : (start.scope? net.scope).isSome)
    {index : Operand} (yields : Yields start index) (inside : index.expr.IndexInside words)
    {node : Node} (type : node.toValueType = .vector net.width net.signed) :
    unstopped.Attempts start (Rule.word node memory index) fun after id =>
      after.Carries id node.toValueType := by
  rw [Rule.word]
  refine (Attempts.lift (memoryOf known named)).bind ?_
  rintro ⟨found, words'⟩ mid grown ⟨same, scope, rfl⟩
  dsimp only at *
  have width : found.width = net.width := congrArg ValueType.width same
  have signed : found.signed = net.signed := congrArg ValueType.signed same
  rw [type]
  split
  · rename_i value definite
    rw [Option.filter_eq_some_iff] at definite
    obtain ⟨integer, isInt, low, high⟩ := inside value definite.1 definite.2
    obtain ⟨id, member, chosen⟩ := word_inside described.count low high
    obtain ⟨word, stored, sameWord, scopeWord⟩ := described.nets id member
    simp only [isInt, Option.bind_some, chosen]
    refine Attempts.pure fun after more => ?_
    refine Design.Carries.grows ⟨⟨word, stored, ?_, by rw [scopeWord]; exact place⟩, ?_⟩
      (grown.trans more)
    · rw [sameWord, ValueType.vector, ← described.domain]
    · simp [ValueType.vector]
  · refine Attempts.bind (yields.later grown) fun address mid₁ grown₁ onAddress => ?_
    rw [Rule.wordAt]
    refine Attempts.lift ((look onAddress).bind fun source mid₂ grown₂ seen => ?_)
    obtain ⟨_, sameA, _⟩ := seen
    rw [width, signed, scope]
    refine drive_known ((grown.trans (grown₁.trans grown₂)).scope place)
      (by simp [ValueType.vector]) fun out after more onOut => ?_
    have sees := (onAddress.grows (grown₂.trans more)).sees
    rw [← sameA] at sees
    exact Design.keeps_memoryRead memory _ sees onOut.sees

end Word

/-- What is known of an argument of a call after it is built, with its port and its expression. -/
def Passes (design : Design) (argument : NetId × Port × Operand) : Prop :=
  ∃ type, design.Carries argument.1 type ∧ (type.domain = .real → argument.2.1.width = 1)

theorem fitArguments {arguments : List (NetId × Port × Operand)}
    (passes : ∀ argument ∈ arguments, Passes start argument) :
    unstopped.Builds start (Rule.fitArguments arguments) fun after ids =>
      List.Forall₂ (fun (id : NetId) (argument : NetId × Port × Operand) =>
        ∃ domain, after.Sees id argument.2.1.width domain) ids arguments := by
  induction arguments generalizing start with
  | nil => exact Builds.pure fun _ _ => .nil
  | cons argument rest ih =>
    obtain ⟨id, port, operand⟩ := argument
    obtain ⟨type, carries, scalar⟩ := passes _ List.mem_cons_self
    refine (fit carries scalar _).bind fun fitted mid grown onFitted => ?_
    refine (ih fun argument member => ?_).bind fun ids mid₁ grown₁ known => ?_
    · obtain ⟨type, carries, scalar⟩ := passes argument (List.mem_cons_of_mem _ member)
      exact ⟨type, carries.grows grown, scalar⟩
    · refine Builds.pure fun after more => .cons ⟨_, (onFitted.grows (grown₁.trans more)).sees⟩ ?_
      exact known.imp fun id argument ⟨domain, sees⟩ => ⟨domain, sees.grows more⟩

theorem callWith {node : Node} {signature : FunctionSignature} {scope : ScopeId}
    {arguments : List Operand} {ids : List NetId} (place : (start.scope? scope).isSome)
    (scalar : signature.result.domain = .real → signature.result.width = 1)
    (arity : arguments.length = signature.ports.length) (built : ids.length = arguments.length)
    (passes : ∀ argument ∈ ids.zip (signature.ports.zip arguments), Passes start argument) :
    unstopped.Builds start (Rule.callWith node signature scope arguments ids) fun after id =>
      after.Carries id signature.result.toValueType := by
  rw [Rule.callWith]
  refine drive place scalar fun out mid grown onOut => ?_
  have passes : ∀ argument ∈ ids.zip (signature.ports.zip arguments), Passes mid argument := by
    intro argument member
    obtain ⟨type, carries, scalar⟩ := passes argument member
    exact ⟨type, carries.grows grown, scalar⟩
  refine (fitArguments passes).bind fun fitted mid₁ grown₁ known => Builds.pure fun after more => ?_
  have count : fitted.length = (signature.ports.map (·.width)).length := by
    rw [known.length_eq]
    simp [built, arity]
  refine Design.keeps_call signature.id ((onOut.grows grown₁).grows more).sees count ?_
  intro index inside
  obtain ⟨domain, sees⟩ := (List.forall₂_iff_get.mp known).2 index inside
    (known.length_eq ▸ inside)
  refine ⟨domain, ?_⟩
  simpa using sees.grows more

theorem functionOf {function : FunctionId} {signature : FunctionSignature}
    (known : start.function? function = some signature) (named : start.NamesFunction function) :
    unstopped.Builds start (Rule.functionOf function) fun _ result => result.1 = signature := by
  intro pending design grown holds
  obtain ⟨name, text⟩ := Option.isSome_iff_exists.mp (named signature known)
  rw [Build.ends_functionOf, grown.function, known]
  dsimp only
  rw [grown.text? text]
  exact ⟨.refl _, holds, rfl⟩

theorem call {arguments : List Operand} (each : ∀ argument ∈ arguments, Yields start argument)
    {node : Node} {function : FunctionId} {scope : ScopeId} {signature : FunctionSignature}
    (known : start.function? function = some signature) (named : start.NamesFunction function)
    (place : (start.scope? scope).isSome)
    (scalar : signature.result.domain = .real → signature.result.width = 1)
    (arity : arguments.length = signature.ports.length)
    (ports : ∀ argument port, (argument, port) ∈ arguments.zip signature.ports →
      argument.expr.isReal = true → port.width = 1) :
    unstopped.Attempts start (Rule.call node function scope arguments) fun after id =>
      after.Carries id signature.result.toValueType := by
  rw [Rule.call]
  refine (Attempts.lift (functionOf known named)).bind ?_
  rintro ⟨signature', name⟩ mid grown rfl
  dsimp only at *
  rw [if_neg (Decidable.not_not.mpr arity)]
  have built : List.Forall₂ (fun attempt (argument : Operand) => unstopped.Attempts mid attempt
      fun after id => after.Carries id argument.expr.netType)
      (arguments.mapIdx fun position argument =>
        argument.build.orReport (.unbuiltArgument position name) argument.expr.span)
      arguments := by
    rw [List.forall₂_iff_get]
    refine ⟨by simp, fun position inside _ => ?_⟩
    simp only [List.get_eq_getElem, List.getElem_mapIdx]
    exact Attempts.orReport _ _ ((each _ (List.getElem_mem _)).later grown)
  refine (Attempts.allOf (fun _ => Design.Carries.lasts _) built).bind
    fun ids mid₁ grown₁ typed => ?_
  refine Attempts.lift (callWith ((grown.trans grown₁).scope place) scalar arity typed.length_eq ?_)
  rintro ⟨id, port, argument⟩ member
  obtain ⟨position, inside, same⟩ := List.mem_iff_getElem.mp member
  simp only [List.length_zip] at inside
  simp only [List.getElem_zip, Prod.mk.injEq] at same
  obtain ⟨rfl, rfl, rfl⟩ := same
  have onPort : (arguments[position], signature'.ports[position]) ∈
      arguments.zip signature'.ports := by
    have bound : position < (arguments.zip signature'.ports).length := by simp; omega
    have zipped := List.getElem_mem bound
    rwa [List.getElem_zip] at zipped
  refine ⟨_, (List.forall₂_iff_get.mp typed).2 position (by omega) (by omega), fun real => ?_⟩
  exact ports _ _ onPort (real_iff.mpr real)

end NetSynth.Typed
