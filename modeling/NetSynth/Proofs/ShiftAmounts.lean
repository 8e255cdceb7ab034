import NetSynth.Proofs.Numbers
import NetSynth.Proofs.ValueSoundness

/-! A shift by an amount that is known beforehand, and by one that a net carries. The first is built
of parts of the vector and zeros; the second is a shifter, which repeats the sign for `>>>` whether
the shift is signed or not. -/
namespace NetSynth

namespace Word

/-- The bits of a word moved by a distance. Places that nothing moves to are low, and in a signed
shift to the right they repeat the top bit. -/
def shift (right signed : Bool) (distance : Nat) (word : Word) : Word :=
  if right then word.drop distance ++ List.replicate (min distance word.length) (signed && top word)
  else (List.replicate distance false ++ word).take word.length

variable {word : Word} {right signed : Bool} {distance : Nat}

theorem shift_zero (right signed : Bool) (word : Word) : word.shift right signed 0 = word := by
  cases right <;> simp [shift]

theorem shift_out (right : Bool) (out : word.length ≤ distance) :
    word.shift right false distance = List.replicate word.length false := by
  cases right with
  | true => simp [shift, out]
  | false => simp [shift, List.take_append_of_le_length, out]

theorem shift_right (inside : distance ≤ word.length) :
    word.shift true false distance = word.drop distance ++ List.replicate distance false := by
  simp [shift, inside]

theorem shift_left (inside : distance ≤ word.length) :
    word.shift false false distance =
      List.replicate distance false ++ word.take (word.length - distance) := by
  simp [shift, List.take_append, inside]

theorem shift_signed_iff : word.shift true false distance = word.shift true true distance ↔
    ¬(0 < distance ∧ word.top = true) := by
  simp only [shift, if_true, List.append_cancel_left_eq, Bool.false_and, Bool.true_and,
    List.replicate_inj]
  cases known : word.top with
  | false => simp
  | true =>
    have some : word ≠ [] := by
      rintro rfl
      cases known
    have long := List.length_pos_iff.mpr some
    simp only [Bool.false_eq_true, or_false, and_true, true_and]
    omega

end Word

/-- The meaning of devices, shifters included. -/
def DeviceKind.word? : DeviceMeaning := fun pin kind =>
  match kind with
  | .shift _ _ right signed =>
      some ((pin (.data 0)).shift right signed (pin .distance).value)
  | kind => kind.compute? pin

theorem DeviceKind.word?_readsInputs : DeviceMeaning.ReadsInputs word? := by
  intro first second kind same
  cases kind with
  | shift width distanceWidth right signed =>
    rw [word?, word?, same (.data 0) rfl, same .distance rfl]
  | _ =>
    simp only [word?]
    exact compute?_readsInputs same

theorem DeviceKind.word?_of_compute? {pin : PinName → Word} {kind : DeviceKind} {word : Word}
    (computes : kind.compute? pin = some word) : word? pin kind = some word := by
  cases kind with
  | shift => cases computes
  | _ => exact computes

/-- The device shifts the word of a net by the value of another. -/
structure Device.Shifts (device : Device) (op : Shift) (data distance out : NetId) : Prop where
  kind : ∃ width distanceWidth,
    device.kind = .shift width distanceWidth op.isRight (op = .arithmeticRight)
  connections : device.connections = [⟨.data 0, data⟩, ⟨.distance, distance⟩, ⟨.result, out⟩]

namespace Design

variable {base after : Design} {words : Valuation}

/-- The words on all nets after the devices that were made since were evaluated, shifters
included. -/
abbrev shiftEvaluate (base after : Design) (words : Valuation) : Valuation :=
  base.evaluateBy DeviceKind.word? after words

theorem Ordered.shiftEvaluate_old (ordered : base.Ordered (base.newDevices after))
    (words : Valuation) {id : NetId} {net : Net} (known : base.net? id = some net) :
    base.shiftEvaluate after words id = words id :=
  ordered.keepsBy _ words (Option.isSome_iff_exists.mpr ⟨net, known⟩)

theorem Ordered.settlesBy (ordered : base.Ordered (base.newDevices after))
    (sized : base.Sizes words) : base.Settles after (base.shiftEvaluate after words) where
  sized := by
    intro id net known
    rw [ordered.shiftEvaluate_old words known, sized known]
  driven := by
    intro device member out drives word computes
    have computes := DeviceKind.word?_of_compute? computes
    exact ordered.satisfiesBy DeviceKind.word?_readsInputs words member drives computes

theorem Ordered.shifts (ordered : base.Ordered (base.newDevices after)) {shifter : Device}
    (member : shifter ∈ base.newDevices after) {op : Shift} {data distance out : NetId}
    (shifts : shifter.Shifts op data distance out) (words : Valuation) :
    base.shiftEvaluate after words out =
      (base.shiftEvaluate after words data).shift op.isRight (op = .arithmeticRight)
        (base.shiftEvaluate after words distance).value := by
  obtain ⟨width, distanceWidth, kind⟩ := shifts.kind
  apply ordered.satisfiesBy DeviceKind.word?_readsInputs words member
  · rw [shifts.connections]
    rfl
  · rw [kind, shifts.connections]
    rfl

end Design

namespace Valued

open Conduct

variable {base start : Design}

theorem unstopped_ends {α : Type} {run : Build α} {value value' : Design → α → Prop}
    (typed : Typed.unstopped.Builds start run value) (valued : anyhow.Builds start run value') :
    run.Ends start (fun a after => start.Grows after ∧ value after a ∧ value' after a)
      fun _ => False := by
  apply ((@typed [] start (.refl start) trivial).and (@valued [] start (.refl start) trivial)).imp
  · exact fun a after ⟨⟨grows, _, known⟩, _, _, known'⟩ => ⟨grows, known, known'⟩
  · exact fun after stopped => stopped.1.2

theorem join {scope : ScopeId} {type : ValueType} {span : Span} {width : Nat} {low high : NetId}
    {wordL wordH : Valuation → Word} (older : base.Grows start)
    (onLow : base.Denotes start low wordL) (onHigh : base.Denotes start high wordH) :
    anyhow.Builds start (Build.drive scope type span fun out => return (.concat width 2,
      [⟨.output, out⟩, ⟨.input 0, low⟩, ⟨.input 1, high⟩])) fun after out =>
      base.Denotes after out fun words => wordL words ++ wordH words := by
  apply drive_known older (fun _ => by simp [Drives, PinName.direction])
  intro out after words more settles
  have readLow := denotes_grows onLow more settles
  have readHigh := denotes_grows onHigh more settles
  simp [DeviceKind.compute?, pinWord, NetRef.read, List.range_succ, readLow, readHigh]

theorem part {scope : ScopeId} {type : ValueType} {span : Span} {width inputWidth offset : Nat}
    {id : NetId} {word : Valuation → Word} (older : base.Grows start)
    (denotes : base.Denotes start id word) :
    anyhow.Builds start (Build.drive scope type span fun part =>
      return (.partSelect width inputWidth (.fixed offset), [⟨.vector, id⟩, ⟨.part, part⟩]))
      fun after part => base.Denotes after part fun words =>
        ((word words).drop offset).take width := by
  apply drive_known older (fun _ => by simp [Drives, PinName.direction])
  intro out after words more settles
  have read := denotes_grows denotes more settles
  simp [DeviceKind.compute?, pinWord, NetRef.read, read]

/-- Shifting by a known amount moves the bits and never repeats the sign. -/
theorem shiftBy {node : Node} (op : Shift) (amount : Nat) {id : NetId} {type : ValueType}
    {word : Valuation → Word} (value : Net) (older : base.Grows start)
    (shown : base.Shows start id type word) (width : type.width = node.width) :
    anyhow.Builds start (Rule.shiftBy node op amount id value) fun after out =>
      base.Denotes after out fun words => (word words).shift op.isRight false amount := by
  have length : ∀ {words}, base.Settles start words → (word words).length = node.width :=
    fun settles => (shown.sized settles).trans width
  rw [Rule.shiftBy]
  generalize op.isRight = right
  split
  · rename_i none
    subst none
    refine Builds.pure fun after more words settles => ?_
    exact (denotes_grows shown.denotes more settles).trans (Word.shift_zero _ _ _).symm
  split
  · rename_i out
    refine (constant older (definite_zeros _)).imp fun after zeros grown denotes words settles => ?_
    have length := length (settles_earlier grown settles)
    have moved := Word.shift_out right (length ▸ out : (word words).length ≤ amount)
    rw [length, ← ofBits_zeros] at moved
    exact (denotes settles).trans moved.symm
  · rename_i inside
    refine (constant older (definite_zeros _)).bind fun zeros mid₁ grown₁ onZeros => ?_
    have older₁ := older.trans grown₁
    refine (part older₁ (denotes_grows shown.denotes grown₁)).bind fun kept mid₂ grown₂ onKept => ?_
    have older₂ := older₁.trans grown₂
    have onZeros := denotes_grows onZeros grown₂
    cases right with
    | true =>
      refine (join older₂ onKept onZeros).imp fun after out grown₃ denotes words settles => ?_
      have length := length (settles_earlier ((grown₁.trans grown₂).trans grown₃) settles)
      have moved : (word words).shift true false amount = _ := Word.shift_right (by omega)
      rw [← ofBits_zeros] at moved
      refine (denotes settles).trans (Eq.trans ?_ moved.symm)
      exact congrArg (· ++ _) (List.take_of_length_le (by simp [length]))
    | false =>
      refine (join older₂ onZeros onKept).imp fun after out grown₃ denotes words settles => ?_
      have length := length (settles_earlier ((grown₁.trans grown₂).trans grown₃) settles)
      have moved : (word words).shift false false amount = _ := Word.shift_left (by omega)
      rw [← ofBits_zeros, length] at moved
      exact (denotes settles).trans moved.symm

end Valued

theorem Valued.newDevice {base start : Design} {scope : ScopeId} {type : ValueType} {span : Span}
    {kind : DeviceKind} {connections : NetId → List Connection} (older : base.Grows start) :
    anyhow.Builds start (Build.drive scope type span fun out => return (kind, connections out))
      fun after out => ∃ device ∈ base.newDevices after,
        device.kind = kind ∧ device.connections = connections out := by
  apply Conduct.Builds.driveBy fun out _ result => result = (kind, connections out)
  · intro pending design grows _
    cases design.scope? scope with
    | none => trivial
    | some found =>
      dsimp only
      split
      · trivial
      · exact ⟨trivial, Conduct.Builds.pure fun _ _ => rfl⟩
  · rintro out pending mid _ grown _ rfl
    cases mid.check kind (connections out) with
    | error fault => trivial
    | ok _ =>
      cases mid.scope? scope with
      | none => trivial
      | some found =>
        have named := mid.grows_nameLocal scope found.nextLocal
        refine ⟨trivial, ⟨⟨mid.devices.size⟩, (mid.nameLocal scope found.nextLocal).1, scope, kind,
          kind.connect (connections out), span⟩, ?_, rfl, kind.map_connect _⟩
        rw [Design.newDevices_pushDevice _ ((older.trans grown).trans named)]
        exact List.mem_append_right _ (List.mem_singleton_self _)

theorem Typed.shiftByNet {start : Design} {node : Node} (op : Shift) {amount id : NetId}
    {type : ValueType} {value distance : Net} (carries : start.Carries id type)
    (vector : type.domain ≠ .real) (width : type.width = node.width)
    (place : (start.scope? value.scope).isSome) (stored : start.net? amount = some distance)
    (bits : distance.domain ≠ .real) :
    unstopped.Builds start (Rule.shiftByNet node op amount id value) fun after out =>
      after.Carries out (.vector node.width node.signed) := by
  intro pending design grows _
  obtain ⟨found, known, same, _⟩ := grows.net stored
  rw [Rule.shiftByNet, Build.ends_bind, Build.ends_net_of known]
  refine Typed.drive_known (grows.scope place) (by simp [ValueType.vector]) ?_ (.refl design)
    trivial
  intro out after more onOut
  obtain ⟨found', known', same', _⟩ := more.net known
  have seesId := (carries.grows (grows.trans more)).sees
  have seesAmount := Design.sees_whole known'
  rw [same'] at seesAmount
  rw [width] at seesId
  refine Design.keeps_shift _ _ seesId seesAmount onOut.sees vector ?_
  rw [congrArg ValueType.domain same]
  exact bits

theorem Valued.shiftByNet {base start : Design} (node : Node) (op : Shift) (amount id : NetId)
    (value : Net) (older : base.Grows start) :
    anyhow.Builds start (Rule.shiftByNet node op amount id value) fun after out =>
      ∃ shifter ∈ base.newDevices after, shifter.Shifts op id amount out := by
  intro pending design grows _
  rw [Rule.shiftByNet, Build.ends_bind, Build.ends_net]
  constructor
  · intro distance _
    apply (@newDevice base design _ _ _ _ _ (older.trans grows) pending _ (.refl design)
      trivial).imp
    · rintro out after ⟨grown, _, shifter, member, kind, connections⟩
      exact ⟨grown, trivial, shifter, member, ⟨_, _, kind⟩, connections⟩
    · exact fun _ stopped => stopped
  · exact fun _ => ⟨.refl _, trivial⟩

theorem Attempt.ends_of_ran {α : Type} {attempt : Attempt α} {design after : Design} {value : α}
    {done : α → Design → Prop} {failed stopped : Design → Prop}
    (ran : attempt.run.runOn design = (.ok (some value), after)) :
    attempt.Ends design done failed stopped ↔ done value after := by
  rw [Ends, Build.Ends, ran]

section Runs

variable {mid later : Design} {node : Node} {op : Shift} {l r : NetId} {signed : Bool}
  (carries : mid.Carries l (.vector node.width signed))
include carries

theorem ends_shiftByNet (grown : mid.Grows later) {value distance : Net}
    (place : (mid.scope? value.scope).isSome) (stored : later.net? r = some distance)
    (bits : distance.domain ≠ .real) : (Rule.shiftByNet node op r l value).Ends later
      (fun out after => later.Grows after ∧
        ∃ shifter ∈ mid.newDevices after, shifter.Shifts op l r out) fun _ => False := by
  have typed := Typed.shiftByNet op (carries.grows grown) nofun rfl (grown.scope place) stored bits
  apply (Valued.unstopped_ends typed (Valued.shiftByNet node op r l value grown)).imp
  · exact fun out after ⟨grows, _, shifts⟩ => ⟨grows, shifts⟩
  · exact fun after stopped => stopped

theorem ends_shift {value : Net} (known : mid.net? l = some value) {operand right : Operand}
    (signal : operand.build = pure l) {done : NetId → Design → Prop}
    {failed stopped : Design → Prop} :
    (Rule.shift node op operand right).Ends mid done failed stopped ↔
      match Rule.fixedAmount? node op right.expr with
      | some amount => (Rule.shiftBy node op amount l value).Ends mid done stopped
      | none => right.build.Ends mid
          (fun r after => (Rule.shiftByNet node op r l value).Ends after done stopped)
          failed stopped := by
  obtain ⟨net, stored, type, _⟩ := carries.stored
  obtain rfl := Option.some.inj (known.symm.trans stored)
  have vector : ¬value.domain.isReal = true := by
    rw [congrArg ValueType.domain type]
    nofun
  have fits : ¬value.width ≠ node.width := not_not.mpr ((congrArg ValueType.width type).trans rfl)
  rw [Rule.shift, signal, Attempt.ends_bind, Attempt.ends_pure, Attempt.ends_bind,
    Attempt.ends_liftM, Build.ends_net_of known, if_neg vector, if_neg fits]
  cases Rule.fixedAmount? node op right.expr with
  | some amount => exact Attempt.ends_liftM _
  | none =>
    dsimp only
    rw [Attempt.ends_bind]
    simp only [Attempt.ends_liftM]

/-- Parts of the vector and zeros make the moved bits, and none of them repeats the sign. -/
theorem ends_shiftBy (amount : Nat) {value : Net} (stored : mid.net? l = some value) :
    (Rule.shiftBy node op amount l value).Ends mid
      (fun out after => mid.Ordered (mid.newDevices after) → ∀ words, mid.Sizes words →
        mid.shiftEvaluate after words out = (words l).shift op.isRight false amount)
      fun _ => False := by
  obtain ⟨net, known, type, place⟩ := carries.stored
  obtain rfl := Option.some.inj (stored.symm.trans known)
  have shown : mid.Shows mid l (.vector node.width signed) fun words => words l :=
    ⟨carries, fun _ _ => rfl, fun settles =>
      (settles.sized stored).trans (congrArg ValueType.width type)⟩
  apply (Valued.unstopped_ends (Typed.shiftBy op amount carries type place rfl rfl)
    (Valued.shiftBy op amount value (.refl mid) shown rfl)).imp
  · rintro out after ⟨_, _, denotes⟩ ordered words sized
    have delivered := denotes (ordered.settlesBy sized)
    simp only [ordered.shiftEvaluate_old words stored] at delivered
    exact delivered
  · exact fun _ stopped => stopped

theorem ends_shiftByNet_delivers (grown : mid.Grows later) {value distance : Net}
    (stored : mid.net? l = some value) (storedR : later.net? r = some distance)
    (bits : distance.domain ≠ .real) : (Rule.shiftByNet node op r l value).Ends later
      (fun out after => later.Grows after ∧ (mid.Ordered (mid.newDevices after) → ∀ words,
        mid.shiftEvaluate after words out = (words l).shift op.isRight (op = .arithmeticRight)
          (mid.shiftEvaluate after words r).value)) fun _ => False := by
  obtain ⟨net, known, _, place⟩ := carries.stored
  obtain rfl := Option.some.inj (stored.symm.trans known)
  apply (ends_shiftByNet carries grown place storedR bits).imp
  · rintro out after ⟨grows, shifter, member, shifts⟩
    constructor
    · exact grows
    · intro ordered words
      rw [ordered.shifts member shifts, ordered.shiftEvaluate_old words stored]
  · exact fun _ stopped => stopped

variable (valid : mid.WellFormed) (settings : SynthesisSettings) (leftNode : Node)
include valid

/-- New devices are in order, so what a shift delivers in order it delivers. -/
theorem shift_delivers {right : Expr} (named : ∀ id ∈ right.nets, (mid.net? id).isSome)
    {delivers : NetId → Design → Prop}
    (ends : (Rule.shift node op
      ⟨.signal leftNode l, (Expr.signal leftNode l).build settings.generation⟩
      ⟨right, right.build settings.generation⟩).Ends mid
        (fun out after => mid.Ordered (mid.newDevices after) → delivers out after)
        (fun _ => False) fun _ => False) : ∃ out after,
      (synthesize settings (.binary node (.shift op) (.signal leftNode l) right)).runOn mid =
        (.ok (some out), after) ∧ delivers out after := by
  obtain ⟨value, stored, _⟩ := carries.stored
  have named : ∀ id ∈ (Expr.binary node (.shift op) (.signal leftNode l) right).nets,
      (mid.net? id).isSome := by
    simpa [Expr.nets, stored] using named
  have ordered := valid.synthesize_ordered settings _ named
  obtain ⟨out, after, ran, delivers⟩ | ⟨_, _, failed⟩ | ⟨_, _, _, stopped⟩ := ends.outcome
  · have ran : (synthesize settings
        (.binary node (.shift op) (.signal leftNode l) right)).runOn mid =
          (.ok (some out), after) := ran
    rw [ran] at ordered
    exact ⟨out, after, ran, delivers ordered⟩
  · exact failed.elim
  · exact stopped.elim

variable (op) in
/-- A shift by a known amount repeats the sign only if it is signed. -/
theorem shift_byConstant (constantNode : Node) {bits : Bits} {amount : Nat}
    (known : bits.value? = some amount) : ∃ out after,
      (synthesize settings (.binary node (.shift op) (.signal leftNode l)
        (.constant constantNode bits))).runOn mid = (.ok (some out), after) ∧
      ∀ words, mid.Sizes words → mid.shiftEvaluate after words out =
        (words l).shift op.isRight (op = .arithmeticRight && node.signed) amount := by
  obtain ⟨value, stored, _⟩ := carries.stored
  obtain ⟨definite, written⟩ := Bits.value?_eq_some.mp known
  apply shift_delivers carries valid settings leftNode (by simp [Expr.nets])
  rw [ends_shift carries stored rfl]
  by_cases repeats : (op = .arithmeticRight && node.signed) = true
  · -- A signed `>>>` is left to a shifter, and the amount is a constant net.
    rw [Rule.fixedAmount?, if_pos repeats]
    change Attempt.Ends (liftM (Build.constant .root bits constantNode.signed constantNode.span))
      _ _ _ _
    rw [Attempt.ends_liftM]
    apply (Valued.unstopped_ends (Typed.constant valid.root _ _ _)
      (Valued.constant (.refl mid) definite)).imp
    · rintro c later ⟨grown, onC, denotes⟩
      obtain ⟨distance, storedC, typeC, _⟩ := onC.stored
      have vector : distance.domain ≠ .real := by
        rw [congrArg ValueType.domain typeC]
        simp [ValueType.vector]
      apply (ends_shiftByNet_delivers carries grown stored storedC vector).imp
      · rintro out after ⟨grows, delivers⟩ ordered words sized
        have onC := denotes (Valued.settles_earlier grows (ordered.settlesBy sized))
        rw [delivers ordered words, onC, written, repeats, (Bool.and_eq_true_iff.mp repeats).1]
      · exact fun _ stopped => stopped
    · exact fun _ stopped => stopped
  · have fixed : Rule.fixedAmount? node op (.constant constantNode bits) = some amount := by
      rw [Rule.fixedAmount?, if_neg repeats]
      exact known
    have never := Bool.eq_false_iff.mpr repeats
    rw [fixed, never]
    exact ends_shiftBy carries amount stored

variable (op) in
/-- A shift by a net repeats the sign for `>>>`, signed or not. -/
theorem shift_byNet {right : Expr} (dynamic : right.constant?.bind Bits.value? = none)
    (named : ∀ id ∈ right.nets, (mid.net? id).isSome)
    (built : (synthesize settings right).runOn mid = (.ok (some r), later)) {distance : Net}
    (stored : later.net? r = some distance) (bits : distance.domain ≠ .real) : ∃ out after,
      (synthesize settings (.binary node (.shift op) (.signal leftNode l) right)).runOn mid =
        (.ok (some out), after) ∧
      ∀ words, mid.shiftEvaluate after words out =
        (words l).shift op.isRight (op = .arithmeticRight)
          (mid.shiftEvaluate after words r).value := by
  obtain ⟨value, storedL, _⟩ := carries.stored
  apply shift_delivers carries valid settings leftNode named
  have unknown : Rule.fixedAmount? node op right = none := by
    rw [Rule.fixedAmount?, dynamic, ite_self]
  rw [ends_shift carries storedL rfl, unknown]
  have grown := ((Build.stepping mid).synthesize settings right (fun _ _ => trivial) .refl).1
  rw [built] at grown
  apply (Attempt.ends_of_ran built).mpr
  apply (ends_shiftByNet_delivers carries grown storedL stored bits).imp
  · exact fun out after ⟨_, delivers⟩ => delivers
  · exact fun _ stopped => stopped

end Runs

theorem runOn_shift {design mid : Design} {settings : SynthesisSettings} {node : Node} {op : Shift}
    {left right : Expr} {l : NetId}
    (built : (synthesize settings left).runOn design = (.ok (some l), mid)) (leftNode : Node) :
    (synthesize settings (.binary node (.shift op) left right)).runOn design =
      (synthesize settings (.binary node (.shift op) (.signal leftNode l) right)).runOn mid := by
  unfold synthesize at built ⊢
  rw [Expr.build, Expr.build, Rule.binary, Rule.binary, Rule.shift, Rule.shift, OptionT.run_bind,
    OptionT.run_bind, Option.elimM, Option.elimM, Build.runOn_bind, built]
  rfl

/-- A vector of any width is shifted by a definite constant, and by a net that carries the value of
the constant. Both requests return a net. The two nets carry the same word, whatever the vector
carries, but for a `>>>` that is not signed: by a constant it fills with zeros, and by a net it
repeats the top bit of the vector. -/
theorem shift_amounts_agree_iff (rootName : String) (commands : List Command)
    (settings : SynthesisSettings) (node : Node) (op : Shift) {left right : Expr} {l r : NetId}
    {mid later : Design} (leftBuilt : (synthesize settings left).runOn
      (Design.reached rootName commands) = (.ok (some l), mid)) {signed : Bool}
    (vector : mid.Carries l (.vector node.width signed)) {constantNode : Node} {bits : Bits}
    {amount : Nat} (known : bits.value? = some amount)
    (dynamic : right.constant?.bind Bits.value? = none)
    (named : ∀ id ∈ right.nets, (mid.net? id).isSome)
    (rightBuilt : (synthesize settings right).runOn mid = (.ok (some r), later)) {distance : Net}
    (stored : later.net? r = some distance) (notReal : distance.domain ≠ .real) :
    ∃ fixed afterFixed carried afterCarried,
      (synthesize settings (.binary node (.shift op) left (.constant constantNode bits))).runOn
        (Design.reached rootName commands) = (.ok (some fixed), afterFixed) ∧
      (synthesize settings (.binary node (.shift op) left right)).runOn
        (Design.reached rootName commands) = (.ok (some carried), afterCarried) ∧
      ∀ words, mid.Sizes words → (mid.shiftEvaluate afterCarried words r).value = amount →
        (mid.shiftEvaluate afterFixed words fixed = mid.shiftEvaluate afterCarried words carried ↔
          ¬(op = .arithmeticRight ∧ node.signed = false ∧ 0 < amount ∧ (words l).top = true)) := by
  have valid := (Design.reached_steps rootName commands).wellFormed
    (Design.wellFormed_empty rootName)
  generalize Design.reached rootName commands = design at *
  have steps : design.Steps mid := by
    have moved := (@Build.moves_synthesize design settings left).steps
    rwa [leftBuilt] at moved
  have valid := steps.wellFormed valid
  obtain ⟨fixed, afterFixed, ranFixed, onFixed⟩ :=
    shift_byConstant op vector valid settings node constantNode known
  obtain ⟨carried, afterCarried, ranCarried, onCarried⟩ :=
    shift_byNet op vector valid settings node dynamic named rightBuilt stored notReal
  refine ⟨fixed, afterFixed, carried, afterCarried, (runOn_shift leftBuilt node).trans ranFixed,
    (runOn_shift leftBuilt node).trans ranCarried, ?_⟩
  intro words sized holds
  rw [onFixed words sized, onCarried words, holds]
  by_cases arithmetic : op = .arithmeticRight
  · subst arithmetic
    cases sign : node.signed with
    | true => exact iff_of_true rfl (by simp)
    | false =>
      rw [show Shift.isRight .arithmeticRight = true from rfl]
      simpa using Word.shift_signed_iff
  · rw [decide_eq_false arithmetic, Bool.false_and]
    exact iff_of_true rfl (by simp [arithmetic])

theorem shift_amounts_agree_low :
    let design := Design.reached "top" [.addSignal .root "a" (.vector 4 false) .nowhere,
      .addSignal .root "n" (.vector 2 false) .nowhere]
    let shift := fun amount => (synthesize {} (.binary ⟨.vector 4 false, .nowhere⟩
      (.shift .arithmeticRight) (.signal ⟨.vector 4 false, .nowhere⟩ ⟨0⟩) amount)).runOn design
    let fixed := shift (.constant ⟨.vector 2 false, .nowhere⟩ (Bits.ofNat 1 2))
    let carried := shift (.signal ⟨.vector 2 false, .nowhere⟩ ⟨1⟩)
    let words : Valuation := fun id =>
      if id = ⟨0⟩ then [false, true, true, false] else [true, false]
    ∃ byConstant byNet, fixed.1.toOption = some (some byConstant) ∧
      carried.1.toOption = some (some byNet) ∧
      design.shiftEvaluate fixed.2 words byConstant = design.shiftEvaluate carried.2 words byNet := by
  intro design shift fixed carried words
  have vector : design.Carries ⟨0⟩ (.vector 4 false) := ⟨⟨_, rfl, rfl, rfl⟩, nofun⟩
  obtain ⟨byConstant, afterFixed, byNet, afterCarried, ranFixed, ranCarried, agree⟩ :=
    @shift_amounts_agree_iff "top" [.addSignal .root "a" (.vector 4 false) .nowhere,
      .addSignal .root "n" (.vector 2 false) .nowhere] {} ⟨.vector 4 false, .nowhere⟩
      .arithmeticRight (.signal ⟨.vector 4 false, .nowhere⟩ ⟨0⟩)
      (.signal ⟨.vector 2 false, .nowhere⟩ ⟨1⟩) ⟨0⟩ ⟨1⟩ design design rfl false vector
      ⟨.vector 2 false, .nowhere⟩ (Bits.ofNat 1 2) 1 (by decide) rfl (by decide +kernel) rfl _ rfl nofun
  have sameFixed : fixed = (.ok (some byConstant), afterFixed) := ranFixed
  have sameCarried : carried = (.ok (some byNet), afterCarried) := ranCarried
  have holds : (design.shiftEvaluate carried.2 words ⟨1⟩).value = 1 := by decide +kernel
  have sized : design.Sizes words := by decide +kernel
  rw [sameCarried] at holds
  refine ⟨byConstant, byNet, by rw [sameFixed]; rfl, by rw [sameCarried]; rfl, ?_⟩
  rw [sameFixed, sameCarried]
  exact (agree words sized holds).mpr nofun

/-- A vector whose top bit is high is not: the net repeats it, and the constant does not. -/
theorem shift_amounts_differ_high :
    let design := Design.reached "top" [.addSignal .root "a" (.vector 4 false) .nowhere,
      .addSignal .root "n" (.vector 2 false) .nowhere]
    let shift := fun amount => (synthesize {} (.binary ⟨.vector 4 false, .nowhere⟩
      (.shift .arithmeticRight) (.signal ⟨.vector 4 false, .nowhere⟩ ⟨0⟩) amount)).runOn design
    let fixed := shift (.constant ⟨.vector 2 false, .nowhere⟩ (Bits.ofNat 1 2))
    let carried := shift (.signal ⟨.vector 2 false, .nowhere⟩ ⟨1⟩)
    let words : Valuation := fun id =>
      if id = ⟨0⟩ then [false, false, false, true] else [true, false]
    fixed.1.toOption = some (some ⟨4⟩) ∧ carried.1.toOption = some (some ⟨2⟩) ∧
      (design.shiftEvaluate carried.2 words ⟨1⟩).value = 1 ∧
      design.shiftEvaluate fixed.2 words ⟨4⟩ = [false, false, true, false] ∧
      design.shiftEvaluate carried.2 words ⟨2⟩ = [false, false, true, true] := by
  decide +kernel

end NetSynth
