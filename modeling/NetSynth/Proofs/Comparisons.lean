import NetSynth.Proofs.Commands
import NetSynth.Proofs.Resizing
import NetSynth.Proofs.ShiftAmounts

/-! Comparisons of vectors of any two widths. Each operand is widened by the sign of its own net, and
the comparator reads both as signed if both expressions are. Where only one of them is, the copies
of its sign count as bits of an unsigned number. -/
namespace NetSynth

namespace Word

variable {both signed : Bool} {width : Nat} {word : Word}

/-- The number for which a word counts in a comparison at a width, in two's complement if both
operands are signed. Otherwise it counts as an unsigned number, together with the copies of the sign
that a signed word gets on the way to the width. -/
def compared (both signed : Bool) (width : Nat) (word : Word) : Int :=
  if both then word.toInt true
  else word.value + if (signed && word.top) = true then 2 ^ width - 2 ^ word.length else 0

theorem toInt_extend_compared (narrow : word.length ≤ width) (signs : both = true → signed = true) :
    toInt both (extend signed width word) = word.compared both signed width := by
  cases both with
  | true =>
    rw [signs rfl, toInt_extend narrow]
    rfl
  | false =>
    have written := @value_extend word width signed narrow
    rw [toInt] at written
    rw [toInt, compared, Bool.false_and, if_neg Bool.false_ne_true, if_neg Bool.false_ne_true,
      written]
    by_cases high : (signed && word.top) = true
    · rw [if_pos high, if_pos high, if_pos high]
      omega
    · rw [if_neg high, if_neg high, if_neg high]
      omega

end Word

/-- The devices that padding a net of the type adds. -/
def Build.padKinds (type : ValueType) (width : Nat) : List DeviceKind :=
  if type.width < width then extensionKinds type.width width type.signed else []

/-- A net of the type was padded to the width, by its own sign. -/
structure Design.Pads (before after : Design) (id : NetId) (type : ValueType) (width : Nat)
    (out : NetId) : Prop where
  adds : before.Adds after (Build.padKinds type width)
  sees : after.Sees out (max type.width width) type.domain
  delivers : before.Delivers after id type.width out (Word.extend type.signed width)

theorem Design.Pads.stored {before after : Design} {id out : NetId} {type : ValueType} {width : Nat}
    (pads : before.Pads after id type width out) : (after.net? out).isSome := by
  obtain ⟨net, known, _⟩ := pads.sees.resolves
  exact Option.isSome_of_eq_some known

namespace Build

open Design

variable {design : Design} {id : NetId} {net : Net} {width : Nat}

theorem ends_drive_unplaced {done : NetId → Design → Prop} {stopped : Design → Prop}
    {scope : ScopeId} {type : ValueType} {span : Span}
    {device : NetId → Build (DeviceKind × List Connection)} (missing : design.scope? scope = none)
    (stops : stopped design) : (drive scope type span device).Ends design done stopped := by
  rw [drive, ends_bind, ends_addLocal, missing]
  exact stops

theorem ends_pad_pads (known : design.net? id = some net) (vector : net.domain ≠ .real)
    (span : Span) :
    (pad id width span).Ends design (fun out after => design.Pads after id net.toValueType width out)
      fun _ => net.width < width ∧ design.scope? net.scope = none := by
  rw [pad, ends_bind, ends_net_of known]
  rcases Nat.lt_or_ge net.width width with narrow | wide
  · rw [if_neg (by simp [Domain.isReal, vector, narrow])]
    cases place : design.scope? net.scope with
    | none =>
      rw [extend, ends_bind, ends_net_of known, if_neg (Nat.not_le.mpr narrow)]
      exact ends_drive_unplaced place ⟨narrow, rfl⟩
    | some scope =>
      have carries : design.Carries id net.toValueType :=
        ⟨⟨net, known, rfl, Option.isSome_of_eq_some place⟩, fun real => absurd real vector⟩
      apply (ends_extend_makes carries narrow vector net.signed span).mono
      rintro out after ⟨makes, delivers⟩
      constructor
      · rw [padKinds, if_pos narrow]
        exact makes.toAdds
      · rw [Nat.max_eq_right (Nat.le_of_lt narrow)]
        exact makes.carries.sees
      · exact delivers
  · rw [if_pos (by simp [wide]), ends_pure]
    constructor
    · rw [padKinds, if_neg (Nat.not_lt.mpr wide)]
      exact .refl design
    · rw [Nat.max_eq_left wide]
      exact sees_whole known
    · intro words length
      rw [evaluate_self, Word.extend_of_ge (length ▸ wide)]

end Build

def Comparison.device (op : Comparison) (width : Nat) (signed : Bool) : DeviceKind :=
  match if width = 1 then op.bitGate? else none with
  | some gate => .logic gate 1 2
  | none => .compare op.relation width signed

/-- A comparison of two nets adds what widens the narrower one and then one device, whose output
carries the relation between the numbers for which the words count. A comparator would come to the
same where the device is a gate. -/
structure Design.Compares (before after : Design) (op : Comparison) (both : Bool) (l r : NetId)
    (left right : ValueType) (width : Nat) (out : NetId) : Prop where
  makes : before.Makes after
    (Build.padKinds left width ++ Build.padKinds right width ++ [op.device width both]) out .bit
  decides : ∀ words : Valuation, (words l).length = left.width → (words r).length = right.width →
    before.evaluate after words out = [op.relation.decides
      ((words l).compared both left.signed width) ((words r).compared both right.signed width)]
  comparator : ∀ words : Valuation, (words l).length = left.width → (words r).length = right.width →
    ∀ pin : PinName → Word, pin .dataA = (words l).extend left.signed width →
      pin .dataB = (words r).extend right.signed width →
      (DeviceKind.compare op.relation width both).compute? pin =
        some (before.evaluate after words out)

/-- A comparison of the nets finds the scopes in which it makes new ones. -/
def Design.Places (design : Design) (left right : Net) : Prop :=
  (design.scope? left.scope).isSome ∧
    (right.width < left.width → (design.scope? right.scope).isSome)

section Comparer

open Build Design

variable {design mid padded after : Design} {op : Comparison} {args : OperandPair} {both : Bool}
  {l r a b out : NetId} {left right : ValueType} {width : Nat}

theorem Rule.comparer_drives : Drives out (comparer op args width both a b out).2 := by
  rw [comparer]
  split <;> rfl

variable (vectors : args.real = false)
include vectors

theorem Rule.comparer_kind : (comparer op args width both a b out).1 = op.device width both := by
  simp only [comparer, Comparison.device, vectors, Bool.not_false, Bool.true_and, beq_iff_eq]
  cases if width = 1 then op.bitGate? else none <;> rfl

variable (signs : both = true → left.signed = true ∧ right.signed = true)
  (narrowL : left.width ≤ width) (narrowR : right.width ≤ width)
  (padsL : design.Pads mid l left width a) (padsR : mid.Pads padded r right width b)
  (stored : (design.net? r).isSome)
include signs narrowL narrowR padsL padsR stored

theorem Design.Compares.of_padded (makes : padded.Makes after [op.device width both] out .bit)
    (computes : ∀ words word, (op.device width both).compute?
      (pinWord words (Rule.comparer op args width both a b out).2) = some word →
        padded.evaluate after words out = word) :
    design.Compares after op both l r left right width out := by
  have pads := padsL.adds.trans padsR.adds
  have countL {words : Valuation} (length : (words l).length = left.width) :
      ((words l).extend left.signed width).toInt both = (words l).compared both left.signed width :=
    Word.toInt_extend_compared (length ▸ narrowL) fun signed => (signs signed).1
  have countR {words : Valuation} (length : (words r).length = right.width) :
      ((words r).extend right.signed width).toInt both = (words r).compared both right.signed width :=
    Word.toInt_extend_compared (length ▸ narrowR) fun signed => (signs signed).2
  have decides (words : Valuation) (lengthL : (words l).length = left.width)
      (lengthR : (words r).length = right.width) :
      design.evaluate after words out = [op.relation.decides
        ((words l).compared both left.signed width)
        ((words r).compared both right.signed width)] := by
    have readR : design.evaluate mid words r = words r := padsL.adds.keeps words r stored
    have readA : design.evaluate padded words a = (words l).extend left.signed width := by
      rw [evaluate_trans padsL.adds.grows padsR.adds.grows, padsR.adds.keeps _ a padsL.stored,
        padsL.delivers words lengthL]
    have readB : design.evaluate padded words b = (words r).extend right.signed width := by
      rw [evaluate_trans padsL.adds.grows padsR.adds.grows, padsR.delivers, readR]
      rw [readR, lengthR]
    have lengthA : (design.evaluate padded words a).length = width := by
      rw [readA, Word.length_extend (lengthL ▸ narrowL)]
    have lengthB : (design.evaluate padded words b).length = width := by
      rw [readB, Word.length_extend (lengthR ▸ narrowR)]
    have compared := Valued.comparer_compute op args both out lengthA lengthB
    dsimp only at compared
    rw [Rule.comparer_kind vectors, readA, readB, countL lengthL, countR lengthR] at compared
    rw [evaluate_trans pads.grows makes.grows]
    exact computes _ _ compared
  constructor
  · exact pads.makes makes
  · exact decides
  · intro words lengthL lengthR pin readA readB
    rw [decides words lengthL lengthR, DeviceKind.compute?, readA, readB, countL lengthL,
      countR lengthR]

theorem Build.ends_drive_comparer (vector : left.domain ≠ .real)
    (domains : left.domain = right.domain) (scope : ScopeId) (span : Span) :
    (drive scope .bit span fun out => return Rule.comparer op args width both a b out).Ends padded
      (fun out after => design.Compares after op both l r left right width out)
      fun _ => design.scope? scope = none := by
  have pads := padsL.adds.trans padsR.adds
  cases place : design.scope? scope with
  | none => exact ends_drive_unplaced (pads.grows.noScopes place) rfl
  | some found =>
    have device : (fun out => (return Rule.comparer op args width both a b out :
        Build (DeviceKind × List Connection))) =
        fun out => return (op.device width both, (Rule.comparer op args width both a b out).2) :=
      funext fun out => congrArg pure (Prod.ext (Rule.comparer_kind vectors) rfl)
    rw [device]
    refine Ends.mono (ends_drive_known span (pads.grows.scope (Option.isSome_of_eq_some place))
      (by simp [ValueType.bit, ValueType.vector]) ?_ fun _ => Rule.comparer_drives) ?_
    · intro opened out grown onOut
      have seesA := padsL.sees.grows (padsR.adds.grows.trans grown)
      have seesB := padsR.sees.grows grown
      rw [Nat.max_eq_right narrowL] at seesA
      rw [Nat.max_eq_right narrowR, ← domains] at seesB
      rw [← @Rule.comparer_kind op args both a b out width vectors]
      exact Typed.keeps_comparer op args both seesA seesB onOut.sees fun _ => vector
    · rintro out after ⟨makes, computes⟩
      exact .of_padded vectors signs narrowL narrowR padsL padsR stored makes computes

end Comparer

section Comparing

open Build Design

variable {design mid later : Design} {node : Node} (op : Comparison) {l r : NetId} {netL netR : Net}
  (knownL : later.net? l = some netL) (knownR : later.net? r = some netR)
  (logicL : netL.domain = .logic) (logicR : netR.domain = .logic)
include knownL knownR logicL logicR

theorem Build.ends_comparer (args : OperandPair) (vectors : args.real = false) {both : Bool}
    (signs : both = true → netL.signed = true ∧ netR.signed = true) (spanL spanR span : Span) :
    (do
      let a ← pad l (max netL.width netR.width) spanL
      let b ← pad r (max netL.width netR.width) spanR
      drive netL.scope .bit span fun out =>
        return Rule.comparer op args (max netL.width netR.width) both a b out : Build NetId).Ends later
      (fun out after => later.Compares after op both l r netL.toValueType netR.toValueType
        (max netL.width netR.width) out)
      fun _ => ¬later.Places netL netR := by
  have vector : netL.domain ≠ .real := by simp [logicL]
  simp only [ends_bind]
  apply (ends_pad_pads knownL vector spanL).imp
  · intro a mid padsL
    obtain ⟨netR', knownR', typeR, scopeR, _⟩ := padsL.adds.grows.net knownR
    have vectorR : netR'.domain ≠ .real := by simp [typeR, logicR]
    apply (ends_pad_pads knownR' vectorR spanR).imp
    · intro b padded padsR
      rw [typeR] at padsR
      apply (ends_drive_comparer vectors signs (Nat.le_max_left _ _) (Nat.le_max_right _ _) padsL
        padsR (Option.isSome_of_eq_some knownR) vector (logicL.trans logicR.symm) netL.scope
        span).imp
      · exact fun out after compares => compares
      · rintro after missing ⟨place, _⟩
        simp [missing] at place
    · rintro padded ⟨narrow, missing⟩ ⟨_, place⟩
      rw [typeR] at narrow
      rw [scopeR] at missing
      have found := padsL.adds.grows.scope (place (by omega))
      simp [missing] at found
  · rintro mid ⟨_, missing⟩ ⟨place, _⟩
    simp [missing] at place

end Comparing

/-- The net of a comparison of vectors carries the relation between the numbers of the operands: in
two's complement if both expressions are signed, and without a sign if not, where the copies of a
sign count as bits. A comparison returns a net wherever the scopes for its nets exist. -/
theorem comparisons_decide {design mid later : Design} (settings : SynthesisSettings) (node : Node)
    (op : Comparison) {left right : Expr} {l r : NetId}
    (builtL : (synthesize settings left).runOn design = (.ok (some l), mid))
    (builtR : (synthesize settings right).runOn mid = (.ok (some r), later))
    (declaredL : left.isReal = false) (declaredR : right.isReal = false) {netL netR : Net}
    (knownL : later.net? l = some netL) (knownR : later.net? r = some netR)
    (logicL : netL.domain = .logic) (logicR : netR.domain = .logic)
    (signL : netL.signed = left.signed) (signR : netR.signed = right.signed) :
    let run := (synthesize settings (.binary node (.compare op) left right)).runOn design
    (∀ out after, run = (.ok (some out), after) → later.Compares after op
      (left.signed && right.signed) l r netL.toValueType netR.toValueType
      (max netL.width netR.width) out) ∧
      (later.Places netL netR → ∃ out after, run = (.ok (some out), after)) := by
  intro run
  have same : run = (Rule.compare node op ⟨left, left.build settings.generation⟩
      ⟨right, right.build settings.generation⟩).run.runOn design := by
    simp only [run, synthesize, Expr.build, Rule.binary]
  have signs (both : (left.signed && right.signed) = true) :
      netL.signed = true ∧ netR.signed = true := by
    rw [signL, signR]
    exact Bool.and_eq_true_iff.mp both
  have ends : (Rule.compare node op ⟨left, left.build settings.generation⟩
      ⟨right, right.build settings.generation⟩).Ends design (fun out after => later.Compares after op
        (left.signed && right.signed) l r netL.toValueType netR.toValueType
        (max netL.width netR.width) out)
      (fun _ => False) fun _ => ¬later.Places netL netR := by
    have compares := Build.ends_comparer op knownL knownR logicL logicR ⟨false, l, r⟩ rfl signs
      left.span right.span node.span
    rw [Rule.compare]
    -- Both operands are built, and then their nets are looked up.
    simpa only [OperandPair.build, Operand.buildIn, declaredL, declaredR, Bool.or_self,
      Bool.false_and, Bool.false_eq_true, if_false, Attempt.ends_bind, Attempt.ends_both,
      Attempt.ends_of_ran builtL, Attempt.ends_of_ran builtR, Attempt.ends_pure,
      Attempt.ends_liftM, Build.ends_net_of knownL, Build.ends_net_of knownR, Build.ends_bind]
      using compares
  rw [same]
  constructor
  · exact fun out after ran => ends.of_ran ran
  · intro placed
    obtain ⟨out, after, ran, _⟩ | ⟨_, _, never⟩ | ⟨_, _, _, missing⟩ := ends.outcome
    · exact ⟨out, after, ran⟩
    · exact never.elim
    · exact absurd placed missing

/-- A signed vector of four bits, less than an unsigned one of two. -/
theorem comparisons_decide_mixed :
    let design := Design.reached "top" [.addSignal .root "a" (.vector 4 true) .nowhere,
      .addSignal .root "b" (.vector 2 false) .nowhere]
    let a := Expr.signal ⟨.vector 4 true, .nowhere⟩ ⟨0⟩
    let b := Expr.signal ⟨.vector 2 false, .nowhere⟩ ⟨1⟩
    ∃ out after, (synthesize {} (.binary ⟨.bit, .nowhere⟩ (.compare .less) a b)).runOn design =
        (.ok (some out), after) ∧
      design.Compares after .less false ⟨0⟩ ⟨1⟩ (.vector 4 true) (.vector 2 false) 4 out := by
  intro design a b
  have builtA : (synthesize {} a).runOn design = (.ok (some ⟨0⟩), design) := rfl
  have builtB : (synthesize {} b).runOn design = (.ok (some ⟨1⟩), design) := rfl
  obtain ⟨compares, returns⟩ := comparisons_decide {} ⟨.bit, .nowhere⟩ .less builtA builtB rfl rfl
    rfl rfl rfl rfl rfl rfl
  obtain ⟨out, after, ran⟩ := returns ⟨rfl, fun _ => rfl⟩
  exact ⟨out, after, ran, compares out after ran⟩

/-- Three as two signed bits is widened to fifteen, which an unsigned three is not equal to. -/
theorem comparisons_differ_widened :
    let design := Design.reached "top" [.addSignal .root "a" (.vector 2 true) .nowhere,
      .addSignal .root "b" (.vector 4 false) .nowhere]
    let run := (synthesize {} (.binary ⟨.bit, .nowhere⟩ (.compare .equal)
      (.signal ⟨.vector 2 true, .nowhere⟩ ⟨0⟩) (.signal ⟨.vector 4 false, .nowhere⟩ ⟨1⟩))).runOn design
    let words : Valuation := fun id =>
      if id = ⟨0⟩ then [true, true] else [true, true, false, false]
    run.1.toOption = some (some ⟨3⟩) ∧ (words ⟨0⟩).value = 3 ∧ (words ⟨1⟩).value = 3 ∧
      design.evaluate run.2 words ⟨3⟩ = [false] := by
  decide +kernel

end NetSynth
