import NetSynth.Proofs.Discipline

/-! Every coercion and every rule follows any discipline, hence so does the synthesis of an
expression that names usable nets. -/
namespace NetSynth.Discipline

open Conduct

variable {D : Discipline} {start : Design}

theorem usable_lasts (D : Discipline) : Lasts D.usable := fun _ _ _ => D.usable_grows

theorem constant (scope : ScopeId) (value : Bits) (signed : Bool) (span : Span) :
    D.Builds start (Build.constant scope value signed span) D.usable :=
  Builds.drive fun _ => Builds.pure (by simp [Drives, PinName.direction])

theorem literal (value : Float) (span : Span) :
    D.Builds start (Build.literal value span) D.usable :=
  Builds.drive fun _ => Builds.pure (by simp [Drives, PinName.direction])

theorem extend {id : NetId} (width : Nat) (signed : Bool) (span : Span)
    (usable : D.usable start id) : D.Builds start (Build.extend id width signed span) D.usable := by
  rw [Build.extend]
  apply (Builds.net id).bind
  intro source mid grown _
  split
  · exact Builds.fail _
  · apply Builds.drive
    intro out
    have kept := D.usable_grows grown usable
    split
    · apply Builds.pure
      intro after more
      simp [Drives, PinName.direction, D.usable_grows more kept]
    · apply (constant _ _ _ _).bind
      intro padding mid' more known
      apply Builds.pure
      intro after last
      simp [Drives, PinName.direction, D.usable_grows (more.trans last) kept,
        D.usable_grows last known]

theorem pad {id : NetId} (width : Nat) (span : Span) (usable : D.usable start id) :
    D.Builds start (Build.pad id width span) D.usable := by
  rw [Build.pad]
  apply (Builds.net id).bind
  intro source mid grown _
  have kept := D.usable_grows grown usable
  split
  · exact Builds.pure fun after more => D.usable_grows more kept
  · exact extend _ _ _ kept

theorem crop {id : NetId} (width : Nat) (span : Span) (usable : D.usable start id) :
    D.Builds start (Build.crop id width span) D.usable := by
  rw [Build.crop]
  apply (Builds.net id).bind
  intro source mid grown _
  have kept := D.usable_grows grown usable
  split
  · exact Builds.pure fun after more => D.usable_grows more kept
  · apply Builds.drive
    intro out
    apply Builds.pure
    intro after more
    simp [Drives, PinName.direction, D.usable_grows more kept]

theorem fit {id : NetId} (width : Nat) (span : Span) (usable : D.usable start id) :
    D.Builds start (Build.fit id width span) D.usable :=
  (pad width span usable).bind fun _ _ _ known => crop width span known

/-- Building the operand follows the discipline. -/
def Operates (D : Discipline) (start : Design) (operand : Operand) : Prop :=
  D.Attempts start operand.build D.usable

theorem Operates.later {operand : Operand} (operates : D.Operates start operand) {later : Design}
    (grows : start.Grows later) : D.Operates later operand :=
  fun _ _ more holds => operates (grows.trans more) holds

theorem Operates.buildIn {operand : Operand} (operates : D.Operates start operand) (real : Bool) :
    D.Attempts start (operand.buildIn real) D.usable := by
  rw [Operand.buildIn]
  split
  · split
    · exact Attempts.lift (literal _ _)
    · exact Attempts.reject _ _
  · exact operates

variable {left right : Operand} (onLeft : D.Operates start left) (onRight : D.Operates start right)
include onLeft onRight

theorem pair : D.Attempts start (OperandPair.build left right) fun after args =>
    D.usable after args.left ∧ D.usable after args.right := by
  refine (Attempts.both D.usable_lasts (onLeft.buildIn _) (onRight.buildIn _)).bind ?_
  rintro ⟨l, r⟩ mid _ ⟨usableLeft, usableRight⟩
  exact Attempts.pure fun after more =>
    ⟨D.usable_grows more usableLeft, D.usable_grows more usableRight⟩

theorem sum (node : Node) (op : Direction) :
    D.Attempts start (Rule.sum node op left right) D.usable := by
  apply (pair onLeft onRight).bind
  rintro args mid _ ⟨usableLeft, usableRight⟩
  generalize (if args.real = true then 1 else node.width) = width
  apply (Attempts.lift (Builds.net _)).bind
  intro l mid₁ grown₁ _
  apply (Attempts.lift (Builds.net _)).bind
  intro r mid₂ grown₂ _
  have grown := grown₁.trans grown₂
  split
  · exact Attempts.fail _
  · apply (Attempts.lift (pad _ _ (D.usable_grows grown usableLeft))).bind
    intro a mid₃ more₁ ua
    apply (Attempts.lift (pad _ _ (D.usable_grows (grown.trans more₁) usableRight))).bind
    intro b mid₄ more₂ ub
    apply Attempts.lift
    apply Builds.drive
    intro out
    apply Builds.pure
    intro after more
    simp [Drives, PinName.direction, D.usable_grows (more₂.trans more) ua, D.usable_grows more ub]

theorem bitwise (node : Node) (op : Bitwise) :
    D.Attempts start (Rule.bitwise node op left right) D.usable := by
  refine (Attempts.both D.usable_lasts onLeft onRight).bind ?_
  rintro ⟨a, b⟩ mid _ ⟨ua, ub⟩
  apply (Attempts.lift (Builds.net _)).bind
  intro l mid₁ grown₁ _
  apply (Attempts.lift (Builds.net _)).bind
  intro r mid₂ grown₂ _
  have grown := grown₁.trans grown₂
  split
  · exact Attempts.reject _ _
  · split
    · exact Attempts.reject _ _
    · apply Attempts.lift
      apply Builds.drive
      intro out
      apply Builds.pure
      intro after more
      simp [Drives, PinName.direction, D.usable_grows (grown.trans more) ua,
        D.usable_grows (grown.trans more) ub]

theorem compare (node : Node) (op : Comparison) :
    D.Attempts start (Rule.compare node op left right) D.usable := by
  apply (pair onLeft onRight).bind
  rintro args mid _ ⟨usableLeft, usableRight⟩
  split
  · exact Attempts.reject _ _
  · apply (Attempts.lift (Builds.net _)).bind
    intro l mid₁ grown₁ _
    apply (Attempts.lift (Builds.net _)).bind
    intro r mid₂ grown₂ _
    have grown := grown₁.trans grown₂
    apply (Attempts.lift (pad _ _ (D.usable_grows grown usableLeft))).bind
    intro a mid₃ more₁ ua
    apply (Attempts.lift (pad _ _ (D.usable_grows (grown.trans more₁) usableRight))).bind
    intro b mid₄ more₂ ub
    apply Attempts.lift
    apply Builds.drive
    intro out
    apply Builds.pure
    intro after more
    rw [Rule.comparer]
    split <;> simp [Drives, PinName.direction, D.usable_grows (more₂.trans more) ua,
      D.usable_grows more ub]

theorem arithmetic (generation : Generation) (node : Node) (op : Arithmetic) :
    D.Attempts start (Rule.arithmetic generation node op left right) D.usable := by
  apply (pair onLeft onRight).bind
  rintro args mid _ ⟨usableLeft, usableRight⟩
  split
  · exact Attempts.reject _ _
  · apply (Attempts.lift (Builds.net _)).bind
    intro l mid₁ grown₁ _
    apply (Attempts.lift (Builds.net _)).bind
    intro r mid₂ grown₂ _
    have grown := grown₁.trans grown₂
    apply Attempts.lift
    apply Builds.drive
    intro out
    apply Builds.pure
    intro after more
    simp [Drives, PinName.direction, D.usable_grows (grown.trans more) usableLeft,
      D.usable_grows (grown.trans more) usableRight]

omit onLeft onRight in
/-- One output and then numbered inputs: the device drives the output and reads the inputs. -/
theorem numbered {α : Type} {driver : PinName} (isOutput : driver.direction = .output)
    {pin : Nat → PinName} (isInput : ∀ index, (pin index).direction = .input) (out : NetId)
    (refOf : α → NetRef) (items : List α) :
    let connections := ⟨driver, .whole out⟩ :: items.mapIdx fun index item => ⟨pin index, refOf item⟩
    Drives out connections ∧ ∀ connection ∈ connections, connection.pin.direction = .input →
      ∃ item ∈ items, connection.ref = refOf item := by
  constructor
  · have noOutput : (items.mapIdx fun index item => (⟨pin index, refOf item⟩ : Connection)).filter
        (·.pin.direction == .output) = [] := by
      rw [List.filter_eq_nil_iff]
      intro connection member
      obtain ⟨index, _, rfl⟩ := List.mem_mapIdx.mp member
      simp [isInput]
    rw [Drives, List.filter_cons_of_pos (by simp [isOutput]), noOutput]
    rfl
  · intro connection member read
    rcases List.mem_cons.mp member with rfl | member
    · simp [isOutput] at read
    · obtain ⟨index, inside, rfl⟩ := List.mem_mapIdx.mp member
      exact ⟨_, List.getElem_mem inside, rfl⟩

omit onLeft onRight in
theorem gatePins (out : NetId) (inputs : List NetRef) :
    Drives out (Rule.gatePins out inputs) ∧ ∀ connection ∈ Rule.gatePins out inputs,
      connection.pin.direction = .input → connection.ref ∈ inputs := by
  have pins := @numbered _ .output rfl .input (fun _ => rfl) out (fun ref => ref) inputs
  refine ⟨pins.1, fun connection member read => ?_⟩
  obtain ⟨ref, listed, same⟩ := pins.2 connection member read
  exact same ▸ listed

theorem logical (node : Node) (op : Logical) :
    D.Attempts start (Rule.logical node op left right) D.usable := by
  refine (Attempts.both D.usable_lasts onLeft onRight).bind ?_
  rintro ⟨a, b⟩ mid _ ⟨ua, ub⟩
  apply (Attempts.lift (Builds.net _)).bind
  intro l mid₁ grown₁ _
  apply (Attempts.lift (Builds.net _)).bind
  intro r mid₂ grown₂ _
  have ua := D.usable_grows (grown₁.trans grown₂) ua
  have ub := D.usable_grows (grown₁.trans grown₂) ub
  split
  · exact Attempts.reject _ _
  · apply Attempts.lift
    apply Builds.drive
    intro out
    have inputs : D.Builds mid₂ (Rule.logicalInputs op a b l.width r.width) fun _ refs =>
        ∀ ref ∈ refs, ref.net = a ∨ ref.net = b := by
      cases op with
      | or =>
        apply Builds.pure
        intro after _ ref member
        rcases List.mem_append.mp member with member | member
        all_goals
          obtain ⟨index, _, rfl⟩ := List.mem_map.mp member
          simp
      | and =>
        simp only [Rule.logicalInputs]
        split
        · exact Builds.pure (by simp)
        · exact Builds.fail _
    apply inputs.bind
    intro refs mid₃ more of
    apply Builds.pure
    intro after last
    refine ⟨(gatePins out refs).1, fun connection member read => ?_⟩
    rcases of _ ((gatePins out refs).2 connection member read) with same | same
    · exact same ▸ D.usable_grows (more.trans last) ua
    · exact same ▸ D.usable_grows (more.trans last) ub

omit onLeft onRight in
theorem shiftBy (node : Node) (op : Shift) (amount : Nat) {id : NetId} (value : Net)
    (usable : D.usable start id) :
    D.Builds start (Rule.shiftBy node op amount id value) D.usable := by
  rw [Rule.shiftBy]
  split
  · exact Builds.pure fun after more => D.usable_grows more usable
  · split
    · exact constant _ _ _ _
    · apply (constant _ _ _ _).bind
      intro zeros mid₁ grown₁ uz
      have taken : D.Builds mid₁ (Build.drive value.scope
          (.vector (node.width - amount) value.signed) node.span fun part =>
            return (.partSelect (node.width - amount) node.width
              (.fixed (if op.isRight then amount else 0)), [⟨.vector, id⟩, ⟨.part, part⟩]))
          D.usable := by
        apply Builds.drive
        intro part
        apply Builds.pure
        intro after more
        simp [Drives, PinName.direction, D.usable_grows (grown₁.trans more) usable]
      apply taken.bind
      intro part mid₂ grown₂ up
      have uz := D.usable_grows grown₂ uz
      have joined : ∀ low high, D.usable mid₂ low → D.usable mid₂ high →
          D.Builds mid₂ (Build.drive value.scope (.vector node.width node.signed) node.span
            fun out => return (.concat node.width 2,
              [⟨.output, out⟩, ⟨.input 0, low⟩, ⟨.input 1, high⟩])) D.usable := by
        intro low high ul uh
        apply Builds.drive
        intro out
        apply Builds.pure
        intro after more
        simp [Drives, PinName.direction, D.usable_grows more ul, D.usable_grows more uh]
      cases op.isRight with
      | true => exact joined part zeros up uz
      | false => exact joined zeros part uz up

theorem shift (node : Node) (op : Shift) :
    D.Attempts start (Rule.shift node op left right) D.usable := by
  rw [Rule.shift]
  apply Attempts.bind onLeft
  intro id mid grown₁ usable
  apply (Attempts.lift (Builds.net _)).bind
  intro value mid₁ grown₂ _
  have usable := D.usable_grows grown₂ usable
  split
  · exact Attempts.reject _ _
  · split
    · exact Attempts.fail _
    · split
      · exact Attempts.lift (shiftBy _ _ _ _ usable)
      · apply Attempts.bind (onRight.later (grown₁.trans grown₂))
        intro amount mid₂ grown₃ ua
        apply Attempts.lift
        apply (Builds.net _).bind
        intro distance mid₃ grown₄ _
        apply Builds.drive
        intro out
        apply Builds.pure
        intro after more
        simp [Drives, PinName.direction, D.usable_grows (grown₃.trans (grown₄.trans more)) usable,
          D.usable_grows (grown₄.trans more) ua]

theorem binary (generation : Generation) (node : Node) (op : BinaryOp) :
    D.Attempts start (Rule.binary generation node op left right) D.usable := by
  cases op with
  | sum op => exact sum onLeft onRight node op
  | bitwise op => exact bitwise onLeft onRight node op
  | compare op => exact compare onLeft onRight node op
  | arithmetic op => exact arithmetic onLeft onRight generation node op
  | logical op => exact logical onLeft onRight node op
  | shift op => exact shift onLeft onRight node op

omit onLeft onRight

theorem unary {operand : Operand} (operates : D.Operates start operand) (node : Node)
    (op : UnaryOp) : D.Attempts start (Rule.unary node op operand) D.usable := by
  have onVector : ∀ finish : NetId → Net → Build NetId,
      (∀ id input later, D.usable later id → D.Builds later (finish id input) D.usable) →
      D.Attempts start (Rule.onVector node op operand finish) D.usable := by
    intro finish finishes
    rw [Rule.onVector]
    apply Attempts.bind operates
    intro id mid _ usable
    apply (Attempts.lift (Builds.net _)).bind
    intro input mid₁ grown _
    split
    · exact Attempts.reject _ _
    · exact Attempts.lift (finishes _ _ _ (D.usable_grows grown usable))
  have folds : ∀ mode id input later, D.usable later id →
      D.Builds later (Rule.fold node mode id input) D.usable := by
    intro mode id input later usable
    apply Builds.drive
    intro out
    apply Builds.pure
    intro after more
    simp [Drives, PinName.direction, D.usable_grows more usable]
  cases op with
  | negate => exact Attempts.reject _ _
  | invert =>
    apply onVector _
    intro id input later usable
    apply Builds.drive
    intro out
    apply Builds.pure
    intro after more
    simp [Drives, PinName.direction, D.usable_grows more usable]
  | reduce mode => exact onVector _ (folds _)
  | logicalNot => exact onVector _ (folds _)

theorem concat {parts : List Operand} (operates : ∀ part ∈ parts, D.Operates start part)
    (node : Node) (repeats : Nat) :
    D.Attempts start (Rule.concat node parts repeats) D.usable := by
  rw [Rule.concat]
  have each : ∀ attempt ∈ parts.map (·.build), D.Attempts start attempt D.usable := by
    intro attempt member
    obtain ⟨part, listed, rfl⟩ := List.mem_map.mp member
    exact operates part listed
  apply (Attempts.all D.usable_lasts each).bind
  intro ids mid _ usable
  split
  · exact Attempts.fail _
  · rename_i first rest
    apply (Attempts.lift (Builds.net _)).bind
    intro leftmost mid₁ grown _
    apply Attempts.lift
    apply Builds.drive
    intro out
    apply Builds.pure
    intro after more
    refine ⟨(gatePins out _).1, fun connection member read => ?_⟩
    have listed := (gatePins out _).2 connection member read
    simp only [List.mem_flatten, List.mem_replicate] at listed
    obtain ⟨_, ⟨_, rfl⟩, listed⟩ := listed
    obtain ⟨id, member, same⟩ := List.mem_map.mp listed
    rw [← same]
    exact D.usable_grows (grown.trans more) (usable id (List.mem_reverse.mp member))

theorem resize {operand : Operand} (operates : D.Operates start operand) (node : Node) :
    D.Attempts start (Rule.resize node operand) D.usable := by
  rw [Rule.resize]
  apply Attempts.bind operates
  intro id mid _ usable
  apply (Attempts.lift (Builds.net _)).bind
  intro source mid₁ grown _
  have usable := D.usable_grows grown usable
  split
  · exact Attempts.lift (extend _ _ _ usable)
  · exact Attempts.lift (crop _ _ usable)

theorem partBase {base : Operand} (operates : D.Operates start base) (node : Node)
    (vectorWidth : Nat) : D.Attempts start (Rule.partBase node vectorWidth base) fun after result =>
      ∀ id ∈ result.2, D.usable after id := by
  rw [Rule.partBase]
  split
  · split
    · exact Attempts.reject _ _
    · exact Attempts.pure (by simp)
  · apply Attempts.bind operates
    intro id mid _ usable
    apply (Attempts.lift (Builds.net _)).bind
    intro source mid₁ grown _
    apply Attempts.pure
    intro after more
    simpa using D.usable_grows (grown.trans more) usable

theorem partSelect {vector base : Operand} (onVector : D.Operates start vector)
    (onBase : D.Operates start base) (node : Node) :
    D.Attempts start (Rule.partSelect node vector base) D.usable := by
  rw [Rule.partSelect]
  apply Attempts.bind onVector
  intro id mid grown usable
  apply (Attempts.lift (Builds.net _)).bind
  intro source mid₁ grown₁ _
  refine (partBase (onBase.later (grown.trans grown₁)) _ _).bind ?_
  rintro ⟨offset, offsetNet⟩ mid₂ grown₂ usableBase
  apply Attempts.lift
  apply Builds.drive
  intro part
  apply Builds.pure
  intro after more
  have usable := D.usable_grows (grown₁.trans (grown₂.trans more)) usable
  cases offsetNet with
  | none => simp [Drives, PinName.direction, usable]
  | some offset =>
    have usableBase := D.usable_grows more (usableBase offset rfl)
    simp [Drives, PinName.direction, usable, usableBase]

theorem choose {condition onTrue onFalse : NetId} (node : Node) (trueSpan falseSpan : Span)
    (choice : Net) (domain : Domain) (uc : D.usable start condition) (ut : D.usable start onTrue)
    (uf : D.usable start onFalse) :
    D.Builds start (Rule.choose node condition onTrue onFalse trueSpan falseSpan choice domain)
      D.usable := by
  rw [Rule.choose]
  split
  · exact Builds.fail _
  · apply (fit _ _ ut).bind
    intro t mid₁ grown₁ ut
    apply (fit _ _ (D.usable_grows grown₁ uf)).bind
    intro f mid₂ grown₂ uf
    apply (Builds.net _).bind
    intro net mid₃ grown₃ _
    apply Builds.drive
    intro out
    apply Builds.pure
    intro after more
    have last := grown₃.trans more
    simp [Drives, PinName.direction, D.usable_grows last uf, D.usable_grows (grown₂.trans last) ut,
      D.usable_grows (grown₁.trans (grown₂.trans last)) uc]

theorem conditional {condition whenTrue whenFalse : Operand} (onCondition : D.Operates start condition)
    (onTrue : D.Operates start whenTrue) (onFalse : D.Operates start whenFalse) (node : Node) :
    D.Attempts start (Rule.conditional node condition whenTrue whenFalse) D.usable := by
  rw [Rule.conditional]
  have lasts : Lasts fun after (pair : NetId × NetId) =>
      D.usable after pair.1 ∧ D.usable after pair.2 :=
    fun _ _ _ grows ⟨first, second⟩ => ⟨D.usable_grows grows first, D.usable_grows grows second⟩
  refine (Attempts.both D.usable_lasts onCondition
    (Attempts.both D.usable_lasts onTrue onFalse)).bind ?_
  rintro ⟨c, t, f⟩ mid _ ⟨uc, ut, uf⟩
  apply (Attempts.lift (Builds.net _)).bind
  intro trueNet mid₁ grown₁ _
  apply (Attempts.lift (Builds.net _)).bind
  intro falseNet mid₂ grown₂ _
  split
  · exact Attempts.reject _ _
  · split
    · exact Attempts.reject _ _
    · apply (Attempts.lift (Builds.net _)).bind
      intro choice mid₃ grown₃ _
      have grown := grown₁.trans (grown₂.trans grown₃)
      exact Attempts.lift (choose _ _ _ _ _ (D.usable_grows grown uc) (D.usable_grows grown ut)
        (D.usable_grows grown uf))

theorem word {index : Operand} (operates : D.Operates start index) (node : Node) {memory : NetId}
    (usable : D.usable start memory) :
    D.Attempts start (Rule.word node memory index) D.usable := by
  rw [Rule.word]
  have look : D.Builds start (Rule.memoryOf memory) fun after result =>
      ∀ id ∈ result.2.words, D.usable after id := by
    intro pending design grows holds
    simp only [Rule.memoryOf, Build.ends_bind, Build.ends_get]
    split
    · exact ⟨.refl _, D.stop holds⟩
    · split
      · exact ⟨.refl _, D.stop holds⟩
      · rename_i known _ _ named
        exact ⟨.refl _, holds, fun id member =>
          D.usable_word (D.usable_grows grows usable) known named member⟩
  refine (Attempts.lift look).bind ?_
  rintro ⟨found, words⟩ mid grown usableWords
  dsimp only
  split
  · split
    · rename_i id chosen
      obtain ⟨integer, _, addressed⟩ := Option.bind_eq_some_iff.mp chosen
      obtain ⟨address, _, stored⟩ := Option.bind_eq_some_iff.mp addressed
      exact Attempts.pure fun after more =>
        D.usable_grows more (usableWords id (Array.mem_of_getElem? stored))
    · exact Attempts.fail _
  · apply Attempts.bind (operates.later grown)
    intro address mid₁ _ ua
    apply Attempts.lift
    apply (Builds.net _).bind
    intro net mid₂ grown₂ _
    apply Builds.drive
    intro out
    apply Builds.pure
    intro after more
    simp [Drives, PinName.direction, D.usable_grows (grown₂.trans more) ua]

theorem fitArguments (arguments : List (NetId × Port × Operand))
    (usable : ∀ argument ∈ arguments, D.usable start argument.1) :
    D.Builds start (Rule.fitArguments arguments) fun after ids =>
      ∀ id ∈ ids, D.usable after id := by
  induction arguments generalizing start with
  | nil => exact Builds.pure (by simp)
  | cons first rest ih =>
    apply (fit _ _ (usable first List.mem_cons_self)).bind
    intro fitted mid grown uf
    refine (ih fun argument member => D.usable_grows grown
      (usable argument (List.mem_cons_of_mem _ member))).bind fun ids mid₁ grown₁ known => ?_
    apply Builds.pure
    intro after more id member
    rcases List.mem_cons.mp member with rfl | member
    · exact D.usable_grows (grown₁.trans more) uf
    · exact D.usable_grows more (known id member)

theorem call {arguments : List Operand} (operates : ∀ argument ∈ arguments, D.Operates start argument)
    (node : Node) (function : FunctionId) (scope : ScopeId) :
    D.Attempts start (Rule.call node function scope arguments) D.usable := by
  rw [Rule.call]
  have look : D.Builds start (Rule.functionOf function) fun _ _ => True := by
    intro pending design _ holds
    rw [Build.ends_functionOf]
    split
    · exact ⟨.refl _, D.stop holds⟩
    · split
      · exact ⟨.refl _, D.stop holds⟩
      · exact ⟨.refl _, holds, trivial⟩
  refine (Attempts.lift look).bind ?_
  rintro ⟨signature, name⟩ mid grown _
  dsimp only
  split
  · exact Attempts.fail _
  · have each : ∀ attempt ∈ arguments.mapIdx fun position argument =>
        argument.build.orReport (.unbuiltArgument position name) argument.expr.span,
        D.Attempts mid attempt D.usable := by
      intro attempt member
      obtain ⟨position, inside, rfl⟩ := List.mem_mapIdx.mp member
      exact Attempts.orReport _ _ ((operates _ (List.getElem_mem inside)).later grown)
    apply (Attempts.all D.usable_lasts each).bind
    intro ids mid₁ _ usable
    apply Attempts.lift
    apply Builds.drive
    intro out
    refine (fitArguments _ fun argument member => usable _ (List.of_mem_zip member).1).bind ?_
    intro fitted mid₂ _ known
    have pins := @numbered _ .result rfl .argument (fun _ => rfl) out NetRef.whole fitted
    refine Builds.pure fun after more => ⟨pins.1, fun connection member read => ?_⟩
    obtain ⟨id, listed, same⟩ := pins.2 connection member read
    rw [same]
    exact D.usable_grows more (known id listed)

/-- The synthesis of an expression that names usable nets follows the discipline. -/
theorem operates (generation : Generation) (expr : Expr)
    (usable : ∀ id ∈ expr.nets, D.usable start id) :
    D.Operates start ⟨expr, expr.build generation⟩ := by
  induction expr using Expr.induction with
  | constant node value => exact Attempts.lift (constant _ _ _ _)
  | real node value => exact Attempts.lift (literal _ _)
  | unary node op operand ih => exact unary (ih usable) node op
  | binary node op left right ihLeft ihRight =>
    simp only [Expr.nets, List.mem_append] at usable
    exact binary (ihLeft fun id h => usable id (.inl h)) (ihRight fun id h => usable id (.inr h))
      generation node op
  | concat node parts repeats ih =>
    simp only [Expr.nets, Expr.netsOfAll_eq_flatMap, List.mem_flatMap] at usable
    refine concat (fun part member => ?_) node repeats
    rw [Expr.operands_eq_map] at member
    obtain ⟨part, listed, rfl⟩ := List.mem_map.mp member
    exact ih part listed fun id h => usable id ⟨part, listed, h⟩
  | resize node operand ih => exact resize (ih usable) node
  | partSelect node vector base ihVector ihBase =>
    simp only [Expr.nets, List.mem_append] at usable
    exact partSelect (ihVector fun id h => usable id (.inl h))
      (ihBase fun id h => usable id (.inr h)) node
  | conditional node condition whenTrue whenFalse ihCondition ihTrue ihFalse =>
    simp only [Expr.nets, List.mem_append] at usable
    exact conditional (ihCondition fun id h => usable id (.inl h))
      (ihTrue fun id h => usable id (.inr (.inl h)))
      (ihFalse fun id h => usable id (.inr (.inr h))) node
  | signal node net =>
    exact Attempts.pure fun after grown => D.usable_grows grown (usable net (by simp [Expr.nets]))
  | word node memory index ih =>
    simp only [Expr.nets, List.mem_cons] at usable
    exact word (ih fun id h => usable id (.inr h)) node (usable memory (.inl rfl))
  | systemCall node name arguments _ => exact Attempts.reject _ _
  | call node function scope arguments ih =>
    simp only [Expr.nets, Expr.netsOfAll_eq_flatMap, List.mem_flatMap] at usable
    refine call (fun argument member => ?_) node function scope
    rw [Expr.operands_eq_map] at member
    obtain ⟨argument, listed, rfl⟩ := List.mem_map.mp member
    exact ih argument listed fun id h => usable id ⟨argument, listed, h⟩
  | parameter node name => exact Attempts.reject _ _
  | scopeRef node scope => exact Attempts.reject _ _
  | event node => exact Attempts.reject _ _

/-- What a request leaves of a design, whatever it comes to. -/
theorem synthesize (settings : SynthesisSettings) (expr : Expr)
    (usable : ∀ id ∈ expr.nets, D.usable start id) (holds : D.holds [] start) :
    let run := (NetSynth.synthesize settings expr).runOn start
    start.Grows run.2 ∧ (D.holds [] run.2 ∨ run.1.isOk = false ∧ D.stopped run.2) := by
  have ends := D.operates settings.generation expr usable (.refl start) holds
  rw [NetSynth.synthesize]
  obtain ⟨id, after, ran, grown, kept, _⟩ | ⟨after, ran, grown, kept⟩ |
    ⟨stop, after, ran, grown, stopped⟩ := ends.outcome
  · rw [ran]
    exact ⟨grown, .inl kept⟩
  · rw [ran]
    exact ⟨grown, .inl kept⟩
  · rw [ran]
    exact ⟨grown, .inr ⟨rfl, stopped⟩⟩

theorem request (settings : SynthesisSettings) (expr : Expr)
    (usable : ∀ id ∈ expr.nets, D.usable start id) :
    D.Builds start (NetSynth.synthesize settings expr) fun _ _ => True :=
  (D.operates settings.generation expr usable).request.imp fun _ _ _ _ => trivial

end NetSynth.Discipline
