import NetSynth.Proofs.RealRuns

/-! Every rule keeps real nets to their pins. Its net is real where the expression builds a real
value, and what the expression misplaces is out of place in the design. -/
namespace NetSynth

/-- From here on the net is real as told, and a design shows what is misplaced: with that, not all
reals are in place. -/
structure Design.Bears (design : Design) (id : NetId) (real misplaced : Design → Bool) : Prop where
  real : ∀ ⦃later⦄, design.Grows later → later.isReal id = real later
  misplaced : ∀ ⦃later⦄, design.Grows later → misplaced later = true → ¬later.RealsInPlace

/-- The net bears what the expression builds and misplaces. -/
def Design.Matches (design : Design) (id : NetId) (expr : Expr) : Prop :=
  design.Bears id (expr.buildsReal ·) (expr.misplacesReal ·)

theorem Design.Bears.grows {before after : Design} {id : NetId} {real misplaced : Design → Bool}
    (bears : before.Bears id real misplaced) (grown : before.Grows after) :
    after.Bears id real misplaced :=
  ⟨fun _ more => bears.real (grown.trans more), fun _ more => bears.misplaced (grown.trans more)⟩

theorem Design.Bears.alike {design : Design} {id out : NetId} {real misplaced : Design → Bool}
    (bears : design.Bears id real misplaced) (same : design.Alike id out) :
    design.Bears out real misplaced :=
  ⟨fun _ more => (same more).trans (bears.real more), bears.misplaced⟩

theorem Design.Bears.lasts (real misplaced : Design → Bool) :
    Lasts fun design id => design.Bears id real misplaced :=
  fun _ _ _ grown bears => bears.grows grown

/-- What either of two operands misplaces is misplaced. -/
theorem Design.Bears.either {design : Design} {a b : NetId} {real misplaced real' misplaced' :
    Design → Bool} (onA : design.Bears a real misplaced) (onB : design.Bears b real' misplaced')
    ⦃later : Design⦄ (grown : design.Grows later)
    (shown : (misplaced later || misplaced' later) = true) : ¬later.RealsInPlace := by
  rcases Bool.or_eq_true_iff.mp shown with first | second
  · exact onA.misplaced grown first
  · exact onB.misplaced grown second

namespace Placing

open Conduct Design

variable {strict : Prop} {last start : Design}

/-- Building the operand keeps real nets to their pins, and its net matches the expression. -/
def Places (strict : Prop) (last start : Design) (operand : Operand) : Prop :=
  (placing strict last).Attempts start operand.build fun after id => after.Matches id operand.expr

theorem Places.later {operand : Operand} (places : Places strict last start operand) {later : Design}
    (grown : start.Grows later) : Places strict last later operand :=
  fun _ _ more holds => places (grown.trans more) holds

theorem constant_of {expr : Expr} {value : Bits} (known : expr.constant? = some value)
    (design : Design) : expr.buildsReal design = false ∧ expr.misplacesReal design = false := by
  cases expr <;> simp_all [Expr.constant?, Expr.buildsReal, Expr.misplacesReal]

theorem Places.buildIn {operand : Operand} (places : Places strict last start operand) (real : Bool) :
    (placing strict last).Attempts start (operand.buildIn real) fun after id =>
      after.Bears id (fun later => real && !operand.expr.isReal || operand.expr.buildsReal later)
        (operand.expr.misplacesReal ·) := by
  rw [Operand.buildIn]
  cases promoted : real && !operand.expr.isReal with
  | true =>
    simp only [if_true]
    split
    · rename_i value known
      refine Attempts.lift ((literal _ _).imp fun after id _ fixed => ⟨fun later more => ?_, ?_⟩)
      · rw [fixed more, Bool.true_or]
      · intro later _ misplaced
        rw [(constant_of known later).2] at misplaced
        cases misplaced
    · exact Attempts.reject _ _
  | false =>
    rw [if_neg Bool.false_ne_true]
    simp only [Bool.false_or]
    exact places

/-- A comparator takes reals at its operands, and a gate takes none. -/
theorem placed_comparer {design : Design} (op : Comparison) (args : OperandPair) (width : Nat)
    (signed : Bool) (a b : NetId) {out : NetId} (vector : design.Fixed out false) :
    design.Placed strict last (Rule.comparer op args width signed a b out) := by
  rw [Rule.comparer]
  split
  · exact placed_of_vectors rfl
  · refine placed_of_carries ?_
    simp [DeviceKind.carriesReal, vector (.refl _)]

section Binary

variable {left right : Operand} (onLeft : Places strict last start left)
  (onRight : Places strict last start right)
include onLeft onRight

theorem pair : (placing strict last).Attempts start (OperandPair.build left right) fun after args =>
    after.Bears args.left
      (fun later => right.expr.isReal && !left.expr.isReal || left.expr.buildsReal later)
      (fun later => left.expr.misplacesReal later || right.expr.misplacesReal later) := by
  refine (Attempts.both (Bears.lasts _ _) (onLeft.buildIn _) (onRight.buildIn _)).bind ?_
  rintro ⟨l, r⟩ mid _ ⟨bearsLeft, bearsRight⟩
  refine Attempts.pure fun after grown => ⟨fun later more => ?_,
    (bearsLeft.grows grown).either (bearsRight.grows grown)⟩
  rw [bearsLeft.real (grown.trans more)]
  cases left.expr.isReal <;> simp

theorem both : (placing strict last).Attempts start (Attempt.both left.build right.build)
    fun after pair => after.Matches pair.1 left.expr ∧ after.Matches pair.2 right.expr :=
  Attempts.both (Bears.lasts _ _) onLeft onRight

/-- Sums follow their left operand, and all pins of the device carry reals. -/
theorem sum (node : Node) (op : Direction) :
    (placing strict last).Attempts start (Rule.sum node op left right) fun after id =>
      after.Matches id (.binary node (.sum op) left.expr right.expr) := by
  rw [Rule.sum]
  refine (pair onLeft onRight).bind fun args mid _ bears => ?_
  generalize (if args.real = true then 1 else node.width) = width
  apply (Attempts.lift (net _)).bind
  rintro l mid₁ grown₁ ⟨onL, _⟩
  refine (Attempts.lift (net _)).bind fun r mid₂ grown₂ _ => ?_
  split
  · exact Attempts.lift (fail _)
  · refine (Attempts.lift (pad _ _ _)).bind fun a mid₃ grown₃ _ => ?_
    refine (Attempts.lift (pad _ _ _)).bind fun b mid₄ grown₄ _ => ?_
    have grown := (grown₂.trans grown₃).trans grown₄
    apply Attempts.lift
    refine drive_known (fun out after _ _ _ => placed_of_carries ?_) fun out final more onOut _ => ?_
    · simp [DeviceKind.carriesReal]
    · have all := grown.trans more
      simp only [Matches, Expr.buildsReal, Expr.misplacesReal]
      exact (bears.grows (grown₁.trans all)).alike ((onL.grows all).alike onOut)

theorem arithmetic (generation : Generation) (node : Node) (op : Arithmetic) :
    (placing strict last).Attempts start (Rule.arithmetic generation node op left right)
      fun after id => after.Matches id (.binary node (.arithmetic op) left.expr right.expr) := by
  rw [Rule.arithmetic]
  refine (pair onLeft onRight).bind fun args mid _ bears => ?_
  split
  · exact Attempts.reject _ _
  · apply (Attempts.lift (net _)).bind
    rintro l mid₁ grown₁ ⟨onL, _⟩
    refine (Attempts.lift (net _)).bind fun r mid₂ grown₂ _ => ?_
    apply Attempts.lift
    refine drive_known (fun out after _ _ _ => placed_of_carries ?_) fun out final more onOut _ => ?_
    · simp [DeviceKind.carriesReal]
    · have all := grown₂.trans more
      simp only [Matches, Expr.buildsReal, Expr.misplacesReal]
      exact (bears.grows (grown₁.trans all)).alike ((onL.grows all).alike onOut)

theorem compare (node : Node) (op : Comparison) :
    (placing strict last).Attempts start (Rule.compare node op left right) fun after id =>
      after.Matches id (.binary node (.compare op) left.expr right.expr) := by
  rw [Rule.compare]
  refine (pair onLeft onRight).bind fun args mid _ bears => ?_
  split
  · exact Attempts.reject _ _
  · refine (Attempts.lift (net _)).bind fun l mid₁ grown₁ _ => ?_
    refine (Attempts.lift (net _)).bind fun r mid₂ grown₂ _ => ?_
    generalize (if args.real = true then 1 else max l.width r.width) = width
    refine (Attempts.lift (pad _ _ _)).bind fun a mid₃ grown₃ _ => ?_
    refine (Attempts.lift (pad _ _ _)).bind fun b mid₄ grown₄ _ => ?_
    have grown := ((grown₁.trans grown₂).trans grown₃).trans grown₄
    apply Attempts.lift
    refine drive fun out mid₅ grown₅ onOut _ => Builds.pure fun after more =>
      ⟨placed_comparer op args width _ a b (onOut.grows more), fun final later _ => ?_⟩
    simp only [Matches, Expr.buildsReal, Expr.misplacesReal]
    exact ⟨onOut.grows (more.trans later),
      (bears.grows (((grown.trans grown₅).trans more).trans later)).misplaced⟩

theorem bitwise (node : Node) (op : Bitwise) :
    (placing strict last).Attempts start (Rule.bitwise node op left right) fun after id =>
      after.Matches id (.binary node (.bitwise op) left.expr right.expr) := by
  rw [Rule.bitwise]
  refine (both onLeft onRight).bind ?_
  rintro ⟨a, b⟩ mid _ ⟨onA, onB⟩
  refine (Attempts.lift (net _)).bind fun l mid₁ grown₁ _ => ?_
  refine (Attempts.lift (net _)).bind fun r mid₂ grown₂ _ => ?_
  split
  · exact Attempts.reject _ _
  · split
    · exact Attempts.reject _ _
    · apply Attempts.lift
      refine drive_known (fun _ _ _ _ _ => placed_of_vectors rfl) fun out final more onOut _ => ?_
      have grown := (grown₁.trans grown₂).trans more
      simp only [Matches, Expr.buildsReal, Expr.misplacesReal]
      exact ⟨onOut, (onA.grows grown).either (onB.grows grown)⟩

theorem logical (node : Node) (op : Logical) :
    (placing strict last).Attempts start (Rule.logical node op left right) fun after id =>
      after.Matches id (.binary node (.logical op) left.expr right.expr) := by
  rw [Rule.logical]
  refine (both onLeft onRight).bind ?_
  rintro ⟨a, b⟩ mid _ ⟨onA, onB⟩
  refine (Attempts.lift (net _)).bind fun l mid₁ grown₁ _ => ?_
  refine (Attempts.lift (net _)).bind fun r mid₂ grown₂ _ => ?_
  split
  · exact Attempts.reject _ _
  · apply Attempts.lift
    apply drive
    intro out mid₃ grown₃ onOut _
    have inputs : (placing strict last).Builds mid₃ (Rule.logicalInputs op a b l.width r.width)
        fun _ _ => True := by
      cases op with
      | or => exact Builds.pure fun _ _ => trivial
      | and =>
        rw [Rule.logicalInputs]
        split
        · exact Builds.pure fun _ _ => trivial
        · exact fail _
    refine inputs.bind fun refs mid₄ grown₄ _ => Builds.pure fun after more =>
      ⟨placed_of_vectors rfl, fun final later _ => ?_⟩
    have last := (grown₄.trans more).trans later
    have grown := ((grown₁.trans grown₂).trans grown₃).trans last
    simp only [Matches, Expr.buildsReal, Expr.misplacesReal]
    exact ⟨onOut.grows last, (onA.grows grown).either (onB.grows grown)⟩

omit onLeft onRight in
theorem shiftBy (node : Node) (op : Shift) (amount : Nat) {id : NetId} (value : Net)
    (vector : start.Fixed id false) :
    (placing strict last).Builds start (Rule.shiftBy node op amount id value) fun after out =>
      after.Fixed out false := by
  rw [Rule.shiftBy]
  split
  · exact Builds.pure fun after grown => vector.grows grown
  · split
    · exact constant _ _ _ _
    · refine (constant _ _ _ _).bind fun zeros mid grown onZeros => ?_
      have kept : (placing strict last).Builds mid (Build.drive value.scope
          (.vector (node.width - amount) value.signed) node.span fun part =>
            return (.partSelect (node.width - amount) node.width
              (.fixed (if op.isRight then amount else 0)), [⟨.vector, id⟩, ⟨.part, part⟩]))
          fun after part => after.Fixed part false :=
        drive_known (fun out after more onOut _ => placed_of_none (by
          have onId := vector (grown.trans more)
          have onOut : after.isReal out = false := onOut (.refl _)
          simp [onId, onOut])) fun _ _ _ onOut _ => onOut
      refine kept.bind fun part mid₁ grown₁ onPart => ?_
      have joined : ∀ low high, mid₁.Fixed low false → mid₁.Fixed high false →
          (placing strict last).Builds mid₁ (Build.drive value.scope
            (.vector node.width node.signed) node.span fun out => return (.concat node.width 2,
              [⟨.output, out⟩, ⟨.input 0, low⟩, ⟨.input 1, high⟩])) fun after out =>
            after.Fixed out false := fun low high onLow onHigh =>
        drive_known (fun out after more onOut _ => placed_of_none (by
          have onOut : after.isReal out = false := onOut (.refl _)
          simp [onLow more, onHigh more, onOut])) fun _ _ _ onOut _ => onOut
      cases op.isRight with
      | true => exact joined part zeros onPart (onZeros.grows grown₁)
      | false => exact joined zeros part (onZeros.grows grown₁) onPart

/-- The check keeps a real amount off the device. -/
theorem shift (node : Node) (op : Shift) :
    (placing strict last).Attempts start (Rule.shift node op left right) fun after id =>
      after.Matches id (.binary node (.shift op) left.expr right.expr) := by
  rw [Rule.shift]
  refine Attempts.bind onLeft fun id mid grown matched => ?_
  apply (Attempts.lift (net _)).bind
  rintro value mid₁ grown₁ ⟨onId, _⟩
  simp only [Matches, Expr.buildsReal, Expr.misplacesReal]
  split
  · exact Attempts.reject _ _
  · rename_i vector
    rw [Bool.not_eq_true] at vector
    rw [vector] at onId
    split
    · exact Attempts.lift (fail _)
    · split
      · rename_i amount known
        refine Attempts.lift ((shiftBy node op amount value onId).imp fun after out more onOut => ?_)
        refine ⟨onOut, fun later last misplaced => ?_⟩
        obtain ⟨bits, constant, _⟩ : ∃ bits, right.expr.constant? = some bits ∧
            bits.value? = some amount := by
          rw [Rule.fixedAmount?] at known
          split at known
          · cases known
          · exact Option.bind_eq_some_iff.mp known
        rw [(constant_of constant later).2, Bool.or_false] at misplaced
        exact matched.misplaced ((grown₁.trans more).trans last) misplaced
      · refine Attempts.bind (onRight.later (grown.trans grown₁)) fun amount mid₂ grown₂ onAmount => ?_
        rw [Rule.shiftByNet]
        apply Attempts.lift
        refine (net _).bind fun distance mid₃ grown₃ _ => ?_
        refine drive_known (fun _ _ _ _ _ => placed_of_vectors rfl) fun out final more onOut _ => ?_
        have later := grown₃.trans more
        exact ⟨onOut, (matched.grows ((grown₁.trans grown₂).trans later)).either
          (onAmount.grows later)⟩

theorem binary (generation : Generation) (node : Node) (op : BinaryOp) :
    (placing strict last).Attempts start (Rule.binary generation node op left right)
      fun after id => after.Matches id (.binary node op left.expr right.expr) := by
  cases op with
  | sum op => exact sum onLeft onRight node op
  | bitwise op => exact bitwise onLeft onRight node op
  | compare op => exact compare onLeft onRight node op
  | arithmetic op => exact arithmetic onLeft onRight generation node op
  | logical op => exact logical onLeft onRight node op
  | shift op => exact shift onLeft onRight node op

end Binary

/-- Operators on one vector make a vector of it. -/
theorem unary {operand : Operand} (places : Places strict last start operand) (node : Node)
    (op : UnaryOp) :
    (placing strict last).Attempts start (Rule.unary node op operand) fun after id =>
      after.Matches id (.unary node op operand.expr) := by
  have onVector : ∀ finish : NetId → Net → Build NetId,
      (∀ id input mid, (placing strict last).Builds mid (finish id input) fun after out =>
        after.Fixed out false) →
      (placing strict last).Attempts start (Rule.onVector node op operand finish) fun after id =>
        after.Matches id (.unary node op operand.expr) := by
    intro finish finished
    rw [Rule.onVector]
    refine Attempts.bind places fun id mid _ matched => ?_
    refine (Attempts.lift (net _)).bind fun input mid₁ grown _ => ?_
    split
    · exact Attempts.reject _ _
    · refine Attempts.lift ((finished id input mid₁).imp fun after out more onOut => ?_)
      simp only [Matches, Expr.buildsReal, Expr.misplacesReal]
      exact ⟨onOut, (matched.grows (grown.trans more)).misplaced⟩
  have folds : ∀ mode id input mid, (placing strict last).Builds mid (Rule.fold node mode id input)
      fun after out => after.Fixed out false := fun _ _ _ _ =>
    drive_known (fun _ _ _ _ _ => placed_of_vectors rfl) fun _ _ _ onOut _ => onOut
  cases op with
  | negate => exact Attempts.reject _ _
  | invert =>
    exact onVector _ fun _ _ _ =>
      drive_known (fun _ _ _ _ _ => placed_of_vectors rfl) fun _ _ _ onOut _ => onOut
  | reduce mode => exact onVector _ (folds _)
  | logicalNot => exact onVector _ (folds _)

end Placing
end NetSynth
