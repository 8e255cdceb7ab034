import NetSynth.Proofs.TypedRuns
import NetSynth.Proofs.Typing

/-! Every rule, on operands of the types that it asks for, returns a net of the declared type or
fails with a report. -/
namespace NetSynth.Typed

open Conduct

variable {start : Design}

/-- Building the operand does not stop, and its net has the type of the expression. -/
def Yields (start : Design) (operand : Operand) : Prop :=
  unstopped.Attempts start operand.build fun after id => after.Carries id operand.expr.netType

theorem Yields.later {operand : Operand} (yields : Yields start operand) {later : Design}
    (grown : start.Grows later) : Yields later operand :=
  fun _ _ more holds => yields (grown.trans more) holds

theorem logic_of_number {expr : Expr} (number : expr.IsNumber) (bits : expr.isReal = false) :
    expr.node.domain = .logic := by
  cases domain : expr.node.domain with
  | untyped => exact absurd domain number
  | logic => rfl
  | real => simp [Expr.isReal, domain, Domain.isReal] at bits

theorem real_iff {expr : Expr} : expr.isReal = true ↔ expr.node.domain = .real := by
  simp [Expr.isReal, Domain.isReal]

section

variable {net : Net} {expr : Expr} (same : net.toValueType = expr.netType)
include same

theorem width_of : net.width = expr.node.width := by
  have widths := congrArg ValueType.width same
  exact widths

theorem domain_of : net.domain = expr.node.domain := by
  have domains := congrArg ValueType.domain same
  exact domains

theorem isReal_of : net.domain.isReal = expr.isReal := by
  rw [domain_of same, Expr.isReal]

end

/-- In the real domain an operand that is not real becomes a literal, or fails. -/
theorem Yields.buildIn {operand : Operand} (yields : Yields start operand)
    (root : (start.scope? .root).isSome) (real : Bool) :
    unstopped.Attempts start (operand.buildIn real) fun after id => ∃ type,
      after.Carries id type ∧ (real = true → type.domain = .real) ∧
        (real = false → type = operand.expr.netType) := by
  rw [Operand.buildIn]
  by_cases promoted : (real && !operand.expr.isReal) = true
  · rw [if_pos promoted]
    simp only [Bool.and_eq_true, Bool.not_eq_true'] at promoted
    split
    · apply Attempts.lift
      refine (literal root _ _).imp fun after id _ carries => ⟨_, carries, fun _ => rfl, ?_⟩
      simp [promoted.1]
    · exact Attempts.reject _ _
  · rw [if_neg promoted]
    refine Attempts.imp yields fun after id _ carries => ⟨_, carries, fun isReal => ?_, fun _ => rfl⟩
    have declared : operand.expr.isReal = true := by simpa [isReal] using promoted
    exact real_iff.mp declared

variable {left right : Operand}

/-- What is known of two operands that were built in one domain. -/
structure Paired (design : Design) (args : OperandPair) (left right : Expr)
    (typeLeft typeRight : ValueType) : Prop where
  real : args.real = (left.isReal || right.isReal)
  onLeft : design.Carries args.left typeLeft
  onRight : design.Carries args.right typeRight
  reals : args.real = true → typeLeft.domain = .real ∧ typeRight.domain = .real
  bits : args.real = false → typeLeft = left.netType ∧ typeRight = right.netType

theorem pair (root : (start.scope? .root).isSome) (onLeft : Yields start left)
    (onRight : Yields start right) :
    unstopped.Attempts start (OperandPair.build left right) fun after args =>
      ∃ typeLeft typeRight, Paired after args left.expr right.expr typeLeft typeRight := by
  have lasts : Lasts fun design id => ∃ type, design.Carries id type ∧
      ((left.expr.isReal || right.expr.isReal) = true → type.domain = .real) ∧
      ((left.expr.isReal || right.expr.isReal) = false → type = left.expr.netType) :=
    fun _ _ _ grown ⟨type, carries, rest⟩ => ⟨type, carries.grows grown, rest⟩
  refine (Attempts.both lasts (onLeft.buildIn root _) (onRight.buildIn root _)).bind ?_
  rintro ⟨l, r⟩ mid _ ⟨⟨typeLeft, onL, realL, bitsL⟩, ⟨typeRight, onR, realR, bitsR⟩⟩
  refine Attempts.pure fun after more => ⟨typeLeft, typeRight, rfl, onL.grows more, onR.grows more,
    fun real => ⟨realL real, realR real⟩, fun bits => ⟨bitsL bits, bitsR bits⟩⟩

theorem both (onLeft : Yields start left) (onRight : Yields start right) :
    unstopped.Attempts start (Attempt.both left.build right.build) fun after pair =>
      after.Carries pair.1 left.expr.netType ∧ after.Carries pair.2 right.expr.netType :=
  Attempts.both (Design.Carries.lasts _) onLeft onRight

variable {design : Design} {args : OperandPair} {a b : Expr} {typeA typeB : ValueType}

theorem Paired.sameDomain (paired : Paired design args a b typeA typeB)
    (numbers : a.IsNumber ∧ b.IsNumber) : typeA.domain = typeB.domain ∧
      (args.real = false → typeA.domain = .logic) := by
  cases real : args.real with
  | true =>
    have reals := paired.reals real
    exact ⟨reals.1.trans reals.2.symm, fun bits => by simp at bits⟩
  | false =>
    obtain ⟨rfl, rfl⟩ := paired.bits real
    have bits := paired.real.symm.trans real
    simp only [Bool.or_eq_false_iff] at bits
    have logicA := logic_of_number numbers.1 bits.1
    have logicB := logic_of_number numbers.2 bits.2
    exact ⟨logicA.trans logicB.symm, fun _ => logicA⟩

/-- Operands of an arithmetic operator have the domain that its node declares. -/
theorem Paired.arithmetic (paired : Paired design args a b typeA typeB)
    (numbers : a.IsNumber ∧ b.IsNumber) {node : Node} (type : node.Arithmetic a b) :
    typeA.domain = node.domain ∧ typeB.domain = node.domain ∧
      (if args.real then 1 else node.width) = node.width ∧
      (node.domain = .real → node.width = 1) := by
  have same := (paired.sameDomain numbers).1
  unfold Node.Arithmetic at type
  cases real : args.real with
  | true =>
    rw [if_pos (paired.real.symm.trans real)] at type
    have reals := paired.reals real
    exact ⟨reals.1.trans type.1.symm, reals.2.trans type.1.symm, type.2.symm, fun _ => type.2⟩
  | false =>
    have bits := paired.real.symm.trans real
    rw [if_neg (by simp [bits])] at type
    have logic := (paired.sameDomain numbers).2 real
    exact ⟨logic.trans type.symm, same.symm.trans (logic.trans type.symm), rfl, by simp [type]⟩

section Binary

variable (root : (start.scope? .root).isSome) (onLeft : Yields start left)
  (onRight : Yields start right)
include root onLeft onRight

theorem sum {node : Node} (op : Direction)
    (numbers : left.expr.IsNumber ∧ right.expr.IsNumber)
    (type : node.Arithmetic left.expr right.expr)
    (wide : left.expr.isReal = false → right.expr.isReal = false →
      left.expr.node.width ≤ node.width ∧ right.expr.node.width ≤ node.width) :
    unstopped.Attempts start (Rule.sum node op left right) fun after id =>
      after.Carries id node.toValueType := by
  apply (pair root onLeft onRight).bind
  rintro args mid grown ⟨typeL, typeR, paired⟩
  obtain ⟨domainL, domainR, width, scalar⟩ := paired.arithmetic numbers type
  have narrow : typeL.width ≤ node.width ∧ typeR.width ≤ node.width := by
    cases real : args.real with
    | true =>
      have reals := paired.reals real
      have single := scalar (domainL.symm.trans reals.1)
      rw [paired.onLeft.scalar reals.1, paired.onRight.scalar reals.2, single]
      exact ⟨Nat.le_refl 1, Nat.le_refl 1⟩
    | false =>
      obtain ⟨rfl, rfl⟩ := paired.bits real
      have bits := paired.real.symm.trans real
      simp only [Bool.or_eq_false_iff] at bits
      exact wide bits.1 bits.2
  rw [width]
  refine lookBoth paired.onLeft paired.onRight fun l r mid₁ grown₁ onL onR sameL sameR place => ?_
  subst sameL sameR
  rw [if_neg (by omega)]
  have scalarL : l.domain = .real → l.width = node.width := fun real => by
    rw [onL.scalar real, scalar (domainL.symm.trans real)]
  have scalarR : r.domain = .real → r.width = node.width := fun real => by
    rw [onR.scalar real, scalar (domainR.symm.trans real)]
  refine (Attempts.lift (padUp onL narrow.1 scalarL _)).bind fun a mid₂ grown₂ onA => ?_
  apply (Attempts.lift (padUp (onR.grows grown₂) narrow.2 scalarR _)).bind
  intro b mid₃ grown₃ onB
  have place := (grown₂.trans grown₃).scope place
  simp only [domainL, domainR] at onA onB ⊢
  refine Attempts.lift (drive_known place scalar fun out after more onOut => ?_)
  exact Design.keeps_addSub op ((onA.grows grown₃).grows more).sees (onB.grows more).sees onOut.sees

theorem arithmetic {node : Node} (generation : Generation) (op : Arithmetic)
    (numbers : left.expr.IsNumber ∧ right.expr.IsNumber)
    (type : node.Arithmetic left.expr right.expr) :
    unstopped.Attempts start (Rule.arithmetic generation node op left right) fun after id =>
      after.Carries id node.toValueType := by
  apply (pair root onLeft onRight).bind
  rintro args mid grown ⟨typeL, typeR, paired⟩
  obtain ⟨domainL, domainR, width, scalar⟩ := paired.arithmetic numbers type
  split
  · exact Attempts.reject _ _
  · refine lookBoth paired.onLeft paired.onRight fun l r mid₁ grown₁ onL onR sameL sameR place => ?_
    subst sameL sameR
    rw [width, domainL]
    refine Attempts.lift (drive_known place scalar fun out after more onOut => ?_)
    have seesL := (onL.grows more).sees
    have seesR := (onR.grows more).sees
    rw [domainL] at seesL
    rw [domainR] at seesR
    exact Design.keeps_arithmetic op node.signed seesL seesR onOut.sees

omit root onLeft onRight in
/-- Single bits are compared for equality by a gate, other operands by a comparator. -/
theorem keeps_comparer (op : Comparison) (args : OperandPair) (signed : Bool) {a b out : NetId}
    {width : Nat} {domain : Domain} (onA : design.Sees a width domain)
    (onB : design.Sees b width domain) (onOut : design.Sees out 1 .logic)
    (vector : args.real = false → domain ≠ .real) :
    let device := Rule.comparer op args width signed a b out
    design.Keeps device.1 device.2 := by
  rw [Rule.comparer]
  split
  · rename_i gate found
    split at found
    · rename_i single
      simp only [Bool.and_eq_true, Bool.not_eq_true', beq_iff_eq] at single
      rw [single.2] at onA onB
      exact Design.keeps_twoInputs gate onA onB onOut (vector single.1) (vector single.1)
    · cases found
  · exact Design.keeps_compare op.relation signed onA onB onOut

theorem compare {node : Node} (op : Comparison)
    (numbers : left.expr.IsNumber ∧ right.expr.IsNumber) :
    unstopped.Attempts start (Rule.compare node op left right) fun after id =>
      after.Carries id .bit := by
  apply (pair root onLeft onRight).bind
  rintro args mid grown ⟨typeL, typeR, paired⟩
  obtain ⟨same, bits⟩ := paired.sameDomain numbers
  split
  · exact Attempts.reject _ _
  · refine lookBoth paired.onLeft paired.onRight fun l r mid₁ grown₁ onL onR sameL sameR place => ?_
    subst sameL sameR
    -- Real operands have width 1 already, and vectors get the width of the wider one.
    obtain ⟨width, widthIs, narrow, scalar⟩ : ∃ width,
        (if args.real then 1 else max l.width r.width) = width ∧
        (l.width ≤ width ∧ r.width ≤ width) ∧
          (l.domain = .real → l.width = width ∧ r.width = width) := by
      refine ⟨_, rfl, ?_⟩
      cases real : args.real with
      | true =>
        have reals := paired.reals real
        have widthL := onL.scalar reals.1
        have widthR := onR.scalar reals.2
        exact ⟨⟨Nat.le_of_eq widthL, Nat.le_of_eq widthR⟩, fun _ => ⟨widthL, widthR⟩⟩
      | false =>
        refine ⟨⟨Nat.le_max_left _ _, Nat.le_max_right _ _⟩, fun isReal => ?_⟩
        rw [bits real] at isReal
        cases isReal
    rw [widthIs]
    apply (Attempts.lift (padUp onL narrow.1 (fun real => (scalar real).1) _)).bind
    intro a mid₂ grown₂ onA
    refine (Attempts.lift (padUp (onR.grows grown₂) narrow.2
      (fun real => (scalar (same.trans real)).2) _)).bind fun b mid₃ grown₃ onB => ?_
    have place := (grown₂.trans grown₃).scope place
    simp only [← same] at onB
    apply Attempts.lift
    apply drive_known place (by simp [ValueType.bit, ValueType.vector])
    intro out after more onOut
    refine keeps_comparer op args _ ((onA.grows grown₃).grows more).sees (onB.grows more).sees
      onOut.sees fun unreal => ?_
    rw [bits unreal]
    simp

omit root in
theorem bitwise {node : Node} (op : Bitwise) (domain : node.domain = .logic)
    (widths : left.expr.isReal = false → right.expr.isReal = false →
      left.expr.node.width = node.width ∧ right.expr.node.width = node.width) :
    unstopped.Attempts start (Rule.bitwise node op left right) fun after id =>
      after.Carries id node.toValueType := by
  refine (both onLeft onRight).bind ?_
  rintro ⟨a, b⟩ mid _ ⟨onA, onB⟩
  refine lookBoth onA onB fun l r mid₁ grown₁ onL onR sameL sameR place => ?_
  split
  · exact Attempts.reject _ _
  · rename_i vectors
    simp only [Bool.or_eq_true, not_or, Bool.not_eq_true] at vectors
    split
    · exact Attempts.reject _ _
    · rename_i equal
      obtain ⟨fits, _⟩ := widths ((isReal_of sameL).symm.trans vectors.1)
        ((isReal_of sameR).symm.trans vectors.2)
      have declared : ValueType.vector l.width node.signed = node.toValueType := by
        rw [width_of sameL, fits, ValueType.vector, ← domain]
      rw [← declared]
      apply Attempts.lift
      apply drive_known place (by simp [ValueType.vector])
      intro out after more onOut
      have seesR := (onR.grows more).sees
      rw [← Decidable.not_not.mp equal] at seesR
      exact Design.keeps_twoInputs op.gate (onL.grows more).sees seesR onOut.sees
        (by simpa [Domain.isReal] using vectors.1) (by simpa [Domain.isReal] using vectors.2)

omit root in
theorem logical {node : Node} (op : Logical)
    (single : op = .and → left.expr.node.width = 1 ∧ right.expr.node.width = 1) :
    unstopped.Attempts start (Rule.logical node op left right) fun after id =>
      after.Carries id .bit := by
  refine (both onLeft onRight).bind ?_
  rintro ⟨a, b⟩ mid _ ⟨onA, onB⟩
  refine lookBoth onA onB fun l r mid₁ grown₁ onL onR sameL sameR place => ?_
  split
  · exact Attempts.reject _ _
  · rename_i vectors
    simp only [Bool.or_eq_true, not_or, Bool.not_eq_true] at vectors
    have vectorL : l.domain ≠ .real := by simpa [Domain.isReal] using vectors.1
    have vectorR : r.domain ≠ .real := by simpa [Domain.isReal] using vectors.2
    apply Attempts.lift
    apply drive place (by simp [ValueType.bit, ValueType.vector])
    intro out mid₂ grown₂ onOut
    have inputs : unstopped.Builds mid₂ (Rule.logicalInputs op a b l.width r.width)
        fun after refs => ∀ ref ∈ refs, ∃ domain, domain ≠ .real ∧ after.Sees ref 1 domain := by
      cases op with
      | or =>
        refine Builds.pure fun after more ref member => ?_
        have grown := grown₂.trans more
        rcases List.mem_append.mp member with member | member
        all_goals obtain ⟨index, inside, rfl⟩ := List.mem_map.mp member
        · exact ⟨_, vectorL, (onL.grows grown).sees_bit (List.mem_range.mp inside)⟩
        · exact ⟨_, vectorR, (onR.grows grown).sees_bit (List.mem_range.mp inside)⟩
      | and =>
        have ones : l.width = 1 ∧ r.width = 1 := by
          rw [width_of sameL, width_of sameR]
          exact single rfl
        simp only [Rule.logicalInputs, if_pos ones]
        refine Builds.pure fun after more => ?_
        have grown := grown₂.trans more
        have seesL := (onL.grows grown).sees
        have seesR := (onR.grows grown).sees
        rw [ones.1] at seesL
        rw [ones.2] at seesR
        simpa using ⟨⟨_, vectorL, seesL⟩, ⟨_, vectorR, seesR⟩⟩
    apply inputs.bind
    intro refs mid₃ grown₃ each
    apply Builds.pure
    intro after more
    refine Design.keeps_gate op.gate ((onOut.grows grown₃).grows more).sees fun ref member => ?_
    obtain ⟨domain, vector, sees⟩ := each ref member
    exact ⟨domain, vector, sees.grows more⟩

omit root onLeft onRight in
/-- A shift by nothing hands on its operand; any other makes a net as declared. -/
theorem shiftBy {node : Node} (op : Shift) (amount : Nat) {id : NetId} {type : ValueType}
    {value : Net} (carries : start.Carries id type) (same : value.toValueType = type)
    (place : (start.scope? value.scope).isSome) (logic : type.domain = .logic)
    (width : type.width = node.width) :
    unstopped.Builds start (Rule.shiftBy node op amount id value) fun after id =>
      after.Carries id (.vector node.width (if amount = 0 then type.signed else node.signed)) := by
  subst same
  rw [Rule.shiftBy]
  by_cases zero : amount = 0
  · rw [if_pos zero, if_pos zero, ← width, ValueType.vector, ← logic]
    exact Builds.pure fun after more => carries.grows more
  · rw [if_neg zero, if_neg zero]
    split
    · exact constant place _ _ _
    · rename_i inside
      refine (constant place _ _ _).bind fun zeros mid₁ grown₁ onZeros => ?_
      have taken : unstopped.Builds mid₁ (Build.drive value.scope
          (.vector (node.width - amount) value.signed) node.span fun part =>
            return (.partSelect (node.width - amount) node.width
              (.fixed (if op.isRight then amount else 0)), [⟨.vector, id⟩, ⟨.part, part⟩]))
          fun after part => after.Carries part (.vector (node.width - amount) value.signed) := by
        apply drive_known (grown₁.scope place) (by simp [ValueType.vector])
        intro out after more onOut
        have sees := (carries.grows (grown₁.trans more)).sees
        rw [width] at sees
        exact Design.keeps_fixedPart _ sees onOut.sees
      refine taken.bind fun part mid₂ grown₂ onPart => ?_
      have onZeros := onZeros.grows grown₂
      have place := (grown₁.trans grown₂).scope place
      have fills : amount + (node.width - amount) = node.width := by omega
      cases op.isRight with
      | true =>
        refine drive_known place (by simp [ValueType.vector]) fun out after more onOut => ?_
        exact Design.keeps_join (onPart.grows more).sees (onZeros.grows more).sees onOut.sees
          ((Nat.add_comm _ _).trans fills)
      | false =>
        refine drive_known place (by simp [ValueType.vector]) fun out after more onOut => ?_
        exact Design.keeps_join (onZeros.grows more).sees (onPart.grows more).sees onOut.sees fills

omit root in
theorem shift {node : Node} (op : Shift) (number : left.expr.IsNumber)
    (logic : node.domain = .logic)
    (width : left.expr.isReal = false → left.expr.node.width = node.width)
    (vector : right.expr.isReal = false) :
    unstopped.Attempts start (Rule.shift node op left right) fun after id =>
      after.Carries id (Expr.binary node (.shift op) left.expr right.expr).netType := by
  refine Attempts.bind onLeft fun id mid grown carries => ?_
  apply (Attempts.lift (look carries)).bind
  rintro value mid₁ grown₁ ⟨_, same, place⟩
  have carries := carries.grows grown₁
  split
  · exact Attempts.reject _ _
  · rename_i bits
    have bits := (isReal_of same).symm.trans (by simpa using bits)
    have domain : left.expr.netType.domain = .logic := logic_of_number number bits
    rw [if_neg (Decidable.not_not.mpr ((width_of same).trans (width bits)))]
    cases fixed : Rule.fixedAmount? node op right.expr with
    | some amount =>
      have declared : (Expr.binary node (.shift op) left.expr right.expr).netType =
          .vector node.width (if amount = 0 then left.expr.netSigned else node.signed) := by
        rw [Expr.netType_shift, fixed, logic]
        simp only [ValueType.vector, Option.some.injEq]
      rw [declared]
      exact Attempts.lift (shiftBy op amount carries same place domain (width bits))
    | none =>
      refine Attempts.bind (onRight.later (grown.trans grown₁)) fun amount mid₂ grown₂ onAmount => ?_
      rw [Rule.shiftByNet]
      apply Attempts.lift
      apply (look onAmount).bind
      rintro distance mid₃ grown₃ ⟨_, sameD, _⟩
      have declared : (Expr.binary node (.shift op) left.expr right.expr).netType =
          .vector node.width node.signed := by
        rw [Expr.netType_shift, fixed, logic, if_neg (by simp), ValueType.vector]
      rw [declared]
      apply drive_known ((grown₂.trans grown₃).scope place) (by simp [ValueType.vector])
      intro out after more onOut
      have seesA := (carries.grows ((grown₂.trans grown₃).trans more)).sees
      have seesB := (onAmount.grows (grown₃.trans more)).sees
      rw [show left.expr.netType.width = node.width from width bits, domain] at seesA
      rw [← sameD] at seesB
      refine Design.keeps_shift _ _ seesA seesB onOut.sees (by simp) fun real => ?_
      have isReal := (isReal_of sameD).trans vector
      simp [Domain.isReal, real] at isReal

end Binary

theorem unary {operand : Operand} (yields : Yields start operand) {node : Node} (op : UnaryOp)
    {type : ValueType}
    (finish : NetId → Net → Build NetId)
    (finishes : ∀ id input mid, start.Grows mid → mid.Carries id input.toValueType →
      input.toValueType = operand.expr.netType → operand.expr.isReal = false →
      (mid.scope? input.scope).isSome →
      unstopped.Builds mid (finish id input) fun after id => after.Carries id type) :
    unstopped.Attempts start (Rule.onVector node op operand finish) fun after id =>
      after.Carries id type := by
  rw [Rule.onVector]
  refine Attempts.bind yields fun id mid grown carries => ?_
  apply (Attempts.lift (look carries)).bind
  rintro input mid₁ grown₁ ⟨_, same, place⟩
  split
  · exact Attempts.reject _ _
  · rename_i vector
    have bits := (isReal_of same).symm.trans (by simpa using vector)
    exact Attempts.lift (finishes id input mid₁ (grown.trans grown₁)
      (same ▸ carries.grows grown₁) same bits place)

theorem invert {operand : Operand} (yields : Yields start operand) {node : Node}
    (logic : node.domain = .logic)
    (width : operand.expr.isReal = false → operand.expr.node.width = node.width) :
    unstopped.Attempts start (Rule.onVector node .invert operand (Rule.invert node))
      fun after id => after.Carries id node.toValueType := by
  refine unary yields _ _ fun id input mid _ carries same bits place => ?_
  have declared : ValueType.vector input.width node.signed = node.toValueType := by
    rw [width_of same, width bits, ValueType.vector, ← logic]
  rw [← declared]
  refine drive_known place (by simp [ValueType.vector]) fun out after more onOut => ?_
  refine Design.keeps_not (carries.grows more).sees onOut.sees fun real => ?_
  have isReal := (isReal_of same).trans bits
  simp [Domain.isReal, real] at isReal

theorem fold {operand : Operand} (yields : Yields start operand) {node : Node} (op : UnaryOp)
    (mode : Reduction) :
    unstopped.Attempts start (Rule.onVector node op operand (Rule.fold node mode))
      fun after id => after.Carries id .bit := by
  refine unary yields _ _ fun id input mid _ carries same bits place => ?_
  apply drive_known place (by simp [ValueType.bit, ValueType.vector])
  intro out after more onOut
  refine Design.keeps_reduce mode (carries.grows more).sees onOut.sees fun real => ?_
  have isReal := (isReal_of same).trans bits
  simp [Domain.isReal, real] at isReal

end NetSynth.Typed
