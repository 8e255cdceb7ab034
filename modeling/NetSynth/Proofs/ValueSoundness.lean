import NetSynth.Proofs.Order
import NetSynth.Proofs.TypeSoundness
import NetSynth.Proofs.ValuedComposites

/-! Synthesis keeps the meaning of expressions over bit vectors: the new devices, evaluated in order,
put the word of the expression on the net that is returned. -/
namespace NetSynth

namespace Expr

variable {design : Design} {expr : Expr}

theorem TwoValued.netSigned_eq (two : expr.TwoValued) : expr.netSigned = expr.signed := by
  have keeps : expr.KeepsSign := by
    induction two with
    | resize _ sign ih => exact sign.imp_right fun same => ⟨same, ih⟩
    | _ => trivial
  exact congrArg ValueType.signed keeps.netType_eq

theorem Arithmetic.logic {node : Node} {left right : Expr} (type : node.Arithmetic left right)
    (logicL : left.node.domain = .logic) (logicR : right.node.domain = .logic) :
    node.domain = .logic := by
  simpa [Node.Arithmetic, isReal, logicL, logicR, Domain.isReal] using type

theorem TwoValued.logic (two : expr.TwoValued) (typed : expr.WellTyped design) :
    expr.node.domain = .logic := by
  induction two with
  | signal logic => exact logic
  | sum _ _ ihL ihR =>
    cases typed with
    | sum onLeft onRight _ type _ => exact Arithmetic.logic type (ihL onLeft) (ihR onRight)
  | conditional _ _ _ _ ihT ihF =>
    cases typed with
    | conditional _ onTrue onFalse _ _ type =>
      have logicT := ihT onTrue
      refine (type (logicT.trans (ihF onFalse).symm) fun untyped => ?_).1.trans logicT
      simp [logicT] at untyped
  | constant | bitwise | invert | concat | resize | partSelect =>
    cases typed
    assumption
  | word | compare | logical | reduce | logicalNot =>
    cases typed
    exact congrArg ValueType.domain ‹_›

theorem TwoValued.vector (two : expr.TwoValued) (typed : expr.WellTyped design) :
    expr.isReal = false := by
  simp [isReal, two.logic typed, Domain.isReal]

theorem TwoValued.known (two : expr.TwoValued) (typed : expr.WellTyped design) {id : NetId}
    (named : id ∈ expr.nets) : (design.net? id).isSome := by
  induction two with
  | constant => simp [nets] at named
  | signal =>
    cases typed with
    | signal known =>
      obtain rfl := List.mem_singleton.mp named
      exact Option.isSome_iff_exists.mpr ⟨_, known⟩
  | word =>
    cases typed with
    | word known =>
      obtain rfl : id = _ := by simpa [nets] using named
      exact Option.isSome_iff_exists.mpr ⟨_, known⟩
  | sum _ _ ihL ihR | bitwise _ _ ihL ihR | compare _ _ _ ihL ihR | logical _ _ ihL ihR =>
    rcases List.mem_append.mp named with left | right
    · exact ihL (by cases typed; assumption) left
    · exact ihR (by cases typed; assumption) right
  | invert _ ih | reduce _ _ ih | logicalNot _ ih | resize _ _ ih =>
    exact ih (by cases typed; assumption) named
  | concat _ ih =>
    cases typed with
    | concat onParts =>
      rw [nets, netsOfAll_eq_flatMap] at named
      obtain ⟨part, member, named⟩ := List.mem_flatMap.mp named
      exact ih part member (onParts part member) named
  | partSelect _ _ _ ih =>
    simp only [nets, List.append_nil] at named
    exact ih (by cases typed; assumption) named
  | conditional _ _ _ ihC ihT ihF =>
    cases typed with
    | conditional onCondition onTrue onFalse =>
      simp only [nets, List.mem_append] at named
      rcases named with inC | inT | inF
      · exact ihC onCondition inC
      · exact ihT onTrue inT
      · exact ihF onFalse inF

theorem named_word (valid : design.WellFormed) {memory : NetId} {net : Net} {words : MemoryWords}
    (known : design.net? memory = some net) (named : net.memory = some words) {node : Node}
    {bits : Bits} (definite : bits.isDefinite = true)
    (inside : (constant node bits).IndexInside words) :
    ∃ id, namedWord? design memory (constant node bits) = some id ∧
      ∃ word, design.net? id = some word ∧ word.width = net.width := by
  have described := valid.words known named
  obtain ⟨integer, isInt, low, high⟩ := inside bits rfl definite
  obtain ⟨id, member, chosen⟩ := Typed.word_inside described.count low high
  obtain ⟨word, stored, same, _⟩ := described.nets id member
  refine ⟨id, ?_, word, stored, congrArg ValueType.width same⟩
  simp [namedWord?, known, named, constant?, isInt, chosen]

theorem TwoValued.length_value (two : expr.TwoValued) (typed : expr.WellTyped design)
    (valid : design.WellFormed) {words : Valuation}
    (sized : ∀ {id net}, design.net? id = some net → (words id).length = net.width) :
    (expr.value design words).length = expr.node.width := by
  induction two with
  | constant =>
    cases typed with
    | constant width => rw [value, Word.length_ofBits, node, width]
  | signal =>
    cases typed with
    | signal known _ type =>
      rw [value, sized known, node]
      exact (congrArg ValueType.width type).symm
  | @word node indexNode memory bits definite =>
    cases typed with
    | word known named _ type _ _ inside =>
      obtain ⟨id, chosen, word, stored, width⟩ := named_word valid known named definite inside
      rw [value, chosen, Option.map_some, Option.getD_some, sized stored, width]
      exact (congrArg ValueType.width type).symm
  | sum | resize =>
    rw [value]
    exact Word.length_ofInt _ _
  | bitwise onLeft onRight ihL ihR =>
    cases typed with
    | bitwise typedL typedR _ widths =>
      obtain ⟨widthL, widthR⟩ := widths (onLeft.vector typedL) (onRight.vector typedR)
      rw [value, BinaryOp.compute, List.length_zipWith, ihL typedL, ihR typedR, widthL, widthR,
        Nat.min_self]
      rfl
  | compare | reduce | logicalNot =>
    rw [value]
    cases typed
    exact (congrArg ValueType.width ‹_›).symm
  | @logical node op =>
    rw [value]
    cases typed with
    | logical _ _ type => cases op <;> exact (congrArg ValueType.width type).symm
  | invert onOperand ih =>
    cases typed with
    | invert typed _ width =>
      rw [value, UnaryOp.compute, List.length_map, ih typed, width (onOperand.vector typed)]
      rfl
  | @concat node parts repeats onParts ih =>
    cases typed with
    | concat typedParts _ _ _ width =>
      have widths : (parts.map (value design words)).map List.length =
          parts.map (·.node.width) := by
        rw [List.map_map]
        exact List.map_congr_left fun part member => ih part member (typedParts part member)
      rw [value, values_eq_map, List.length_flatten, List.map_replicate, List.sum_replicate_nat,
        List.length_flatten, List.map_reverse, List.sum_reverse, widths]
      exact width.symm
  | @partSelect node baseNode vector bits offset onVector fixed inside ih =>
    cases typed with
    | partSelect typed =>
      have start : (Expr.constant baseNode bits).constant?.bind
          (·.toInt? (Expr.constant baseNode bits).signed) = some offset := fixed
      rw [value, start, Option.getD_some, List.length_take, List.length_drop, ih typed]
      change min node.width (vector.node.width - offset.toNat) = node.width
      omega
  | conditional =>
    rw [value]
    split <;> exact Word.length_ofInt _ _

theorem TwoValued.value_congr (two : expr.TwoValued) (typed : expr.WellTyped design)
    (valid : design.WellFormed) {first second : Valuation}
    (same : ∀ id, (design.net? id).isSome → first id = second id) :
    expr.value design first = expr.value design second := by
  induction two with
  | constant => rw [value, value]
  | signal =>
    cases typed with
    | signal known =>
      rw [value, value]
      exact same _ (Option.isSome_iff_exists.mpr ⟨_, known⟩)
  | @word node indexNode memory bits definite =>
    cases typed with
    | word known named _ _ _ _ inside =>
      obtain ⟨id, chosen, net, stored, _⟩ := named_word valid known named definite inside
      rw [value, value, chosen, Option.map_some, Option.map_some,
        same id (Option.isSome_iff_exists.mpr ⟨net, stored⟩)]
  | sum _ _ ihL ihR | bitwise _ _ ihL ihR | compare _ _ _ ihL ihR | logical _ _ ihL ihR =>
    rw [value, value, ihL (by cases typed; assumption), ihR (by cases typed; assumption)]
  | invert _ ih | reduce _ _ ih | logicalNot _ ih | resize _ _ ih | partSelect _ _ _ ih =>
    rw [value, value, ih (by cases typed; assumption)]
  | concat _ ih =>
    cases typed with
    | concat typedParts =>
      rw [value, value, values_eq_map, values_eq_map,
        List.map_congr_left fun part member => ih part member (typedParts part member)]
  | conditional _ _ _ ihC ihT ihF =>
    cases typed with
    | conditional typedC typedT typedF => rw [value, value, ihC typedC, ihT typedT, ihF typedF]

end Expr

namespace Valued

open Conduct

variable {base : Design}

theorem denotes_congr {attempt : Attempt NetId} {word word' : Valuation → Word}
    (denotes : anyhow.Attempts base attempt fun after id => base.Denotes after id word)
    (same : ∀ words, word words = word' words) :
    anyhow.Attempts base attempt fun after id => base.Denotes after id word' := by
  obtain rfl : word = word' := funext same
  exact denotes

/-- The rules ask for the types and the widths of their operands too, beside the words. -/
theorem shown_of_denotes (valid : base.WellFormed) (generation : Generation) {part : Expr}
    (two : part.TwoValued) (typed : part.WellTyped base)
    (denotes : anyhow.Attempts base (part.build generation) fun after id =>
      base.Denotes after id fun words => part.value base words) :
    Shown base ⟨part, part.build generation⟩ fun words => part.value base words :=
  (attempts_and (Typed.yields valid generation typed) denotes).imp
    fun _ _ _ ⟨carries, denotes⟩ =>
      ⟨carries, denotes, fun settles => two.length_value typed valid settles.sized⟩

/-- The rules fit together: where the design settles, the word of an expression is on its net. -/
theorem denotes (valid : base.WellFormed) (generation : Generation) {expr : Expr}
    (two : expr.TwoValued) (typed : expr.WellTyped base) :
    anyhow.Attempts base (expr.build generation) fun after id =>
      base.Denotes after id fun words => expr.value base words := by
  have shown := @shown_of_denotes base valid generation
  induction two with
  | constant definite =>
    refine denotes_congr (Attempts.lift (constant (.refl base) definite)) fun words => ?_
    rw [Expr.value]
  | signal =>
    apply denotes_congr (Attempts.pure fun after _ words _ => rfl)
    intro words
    rw [Expr.value]
  | word definite =>
    cases typed with
    | word known named =>
      refine denotes_congr (word known named rfl definite) fun words => ?_
      rw [Expr.value]
  | sum onLeft onRight ihL ihR =>
    cases typed with
    | sum typedL typedR =>
      refine denotes_congr (sum (shown onLeft typedL (ihL typedL)) (shown onRight typedR (ihR typedR))
        _ (onLeft.logic typedL) (onRight.logic typedR)) fun words => ?_
      rw [Expr.value, BinaryOp.compute, onLeft.netSigned_eq, onRight.netSigned_eq]
  | bitwise onLeft onRight ihL ihR =>
    cases typed with
    | bitwise typedL typedR =>
      refine denotes_congr (bitwise (shown onLeft typedL (ihL typedL))
        (shown onRight typedR (ihR typedR)) _) fun words => ?_
      rw [Expr.value, BinaryOp.compute]
  | compare onLeft onRight signs ihL ihR =>
    cases typed with
    | compare typedL typedR =>
      refine denotes_congr (compare (shown onLeft typedL (ihL typedL))
        (shown onRight typedR (ihR typedR)) _ (onLeft.logic typedL) (onRight.logic typedR)
        onLeft.netSigned_eq onRight.netSigned_eq signs) fun words => ?_
      rw [Expr.value, BinaryOp.compute]
  | @logical node op _ _ onLeft onRight ihL ihR =>
    cases typed with
    | logical typedL typedR =>
      refine denotes_congr (logical (shown onLeft typedL (ihL typedL))
        (shown onRight typedR (ihR typedR)) _) fun words => ?_
      rw [Expr.value]
      cases op <;> rfl
  | invert onOperand ih =>
    cases typed with
    | invert typed =>
      refine denotes_congr (invert (shown onOperand typed (ih typed))) fun words => ?_
      rw [Expr.value]
  | @reduce node mode _ onOperand structural ih =>
    cases typed with
    | reduce typed =>
      have same : Rule.structural mode = mode := by
        cases mode <;> first | rfl | exact absurd rfl structural
      change anyhow.Attempts base
        (Rule.onVector node (.reduce mode) _ (Rule.fold node (Rule.structural mode))) _
      rw [same]
      refine denotes_congr (fold (shown onOperand typed (ih typed)) mode) fun words => ?_
      rw [Expr.value, UnaryOp.compute]
  | logicalNot onOperand ih =>
    cases typed with
    | logicalNot typed =>
      refine denotes_congr (fold (shown onOperand typed (ih typed)) .nor) fun words => ?_
      rw [Expr.value, UnaryOp.compute]
      rfl
  | @concat node parts repeats onParts ih =>
    cases typed with
    | concat typedParts =>
      change anyhow.Attempts base (Rule.concat node (Expr.operands generation parts) repeats) _
      rw [Expr.operands_eq_map]
      have onParts : ∀ part ∈ parts.map fun part => ⟨part, part.build generation⟩,
          Shown base part fun words => part.expr.value base words := by
        simp only [List.forall_mem_map]
        exact fun part member => shown (onParts part member) (typedParts part member)
          (ih part member (typedParts part member))
      refine denotes_congr (@concat base (fun part words => part.value base words) _ onParts node
        repeats) fun words => ?_
      rw [Expr.value, Expr.values_eq_map, List.map_map]
      rfl
  | resize onOperand _ ih =>
    cases typed with
    | resize typed =>
      refine denotes_congr (resize (shown onOperand typed (ih typed))) fun words => ?_
      rw [Expr.value]
  | @partSelect node baseNode vector bits offset onVector fixed _ ih =>
    cases typed with
    | partSelect typed =>
      have start : (Expr.constant baseNode bits).constant?.bind
          (·.toInt? (Expr.constant baseNode bits).signed) = some offset := fixed
      refine denotes_congr (partSelect (shown onVector typed (ih typed)) start) fun words => ?_
      rw [Expr.value, start, Option.getD_some]
  | conditional onCondition onTrue onFalse ihC ihT ihF =>
    cases typed with
    | conditional typedC typedT typedF =>
      refine denotes_congr (conditional (shown onCondition typedC (ihC typedC))
        (shown onTrue typedT (ihT typedT)) (shown onFalse typedF (ihF typedF))
        (onTrue.logic typedT) (onFalse.logic typedF)) fun words => ?_
      rw [Expr.value, onTrue.netSigned_eq, onFalse.netSigned_eq]

end Valued

/-- New devices in order settle in one evaluation. -/
theorem Design.Ordered.settles {base after : Design} (ordered : base.Ordered (base.newDevices after))
    {words : Valuation} (sized : ∀ {id net}, base.net? id = some net →
      (words id).length = net.width) : base.Settles after (base.evaluate after words) where
  sized := fun known => by
    rw [Design.evaluate, Design.evaluateBy,
      ordered.keepsBy _ words (Option.isSome_iff_exists.mpr ⟨_, known⟩), sized known]
  driven := fun device member out drives word computes =>
    ordered.satisfiesBy DeviceKind.compute?_readsInputs words member drives computes

/-- If a request for an expression over bit vectors returns a net, then evaluating the new devices
puts the word of the expression on that net, for any words on the nets that were there before, and
leaves those as they are. -/
theorem synthesize_value (rootName : String) (commands : List Command)
    (settings : SynthesisSettings) (expr : Expr) (two : expr.TwoValued)
    (typed : expr.WellTyped (Design.reached rootName commands)) (id : NetId) (after : Design)
    (built : (synthesize settings expr).runOn (Design.reached rootName commands) =
      (.ok (some id), after)) (words : Valuation)
    (sized : ∀ old net, (Design.reached rootName commands).net? old = some net →
      (words old).length = net.width) :
    let evaluated := (Design.reached rootName commands).evaluate after words
    evaluated id = expr.value (Design.reached rootName commands) words ∧
      ∀ old, ((Design.reached rootName commands).net? old).isSome → evaluated old = words old := by
  have valid := (Design.reached_steps rootName commands).wellFormed (Design.wellFormed_empty rootName)
  have ordered := valid.synthesize_ordered settings expr fun id member => two.known typed member
  have denotes := Valued.denotes valid settings.generation two typed
  generalize Design.reached rootName commands = design at *
  rw [built] at ordered
  have keeps := fun old (known : (design.net? old).isSome) =>
    ordered.keepsBy DeviceKind.compute? words known
  refine ⟨?_, keeps⟩
  have ended := @denotes [] design (.refl design) trivial
  unfold Attempt.Ends Build.Ends at ended
  unfold synthesize at built
  rw [built] at ended
  have settles := ordered.settles fun {old net} => sized old net
  exact (ended.2.2 settles).trans (two.value_congr typed valid keeps)

/-- One is added to a signal, with room for the carry. -/
theorem synthesize_value_successor :
    let design := Design.reached "top" [Command.addSignal .root "a" (.vector 4 false) .nowhere]
    let a := Expr.signal ⟨.vector 4 false, .nowhere⟩ ⟨0⟩
    let one := Expr.constant ⟨.vector 4 false, .nowhere⟩ (Bits.ofNat 1 4)
    let next := Expr.binary ⟨.vector 5 false, .nowhere⟩ (.sum .add) a one
    ∃ id after, (synthesize {} next).runOn design = (.ok (some id), after) ∧
      design.evaluate after (fun _ => List.replicate 4 true) id =
        [false, false, false, false, true] := by
  intro design a one next
  have typed : next.WellTyped design :=
    .sum (.signal rfl rfl rfl) (.constant rfl rfl) ⟨nofun, nofun⟩ rfl
      fun _ _ => ⟨by decide, by decide⟩
  have two : next.TwoValued := .sum (.signal rfl) (.constant (by decide))
  have result : ((synthesize {} next).runOn design).1.toOption = some (some ⟨6⟩) := by
    decide +kernel
  rcases ran : (synthesize {} next).runOn design with ⟨outcome, after⟩
  rw [ran] at result
  cases outcome with
  | error stop => cases result
  | ok built =>
    obtain rfl := Option.some.inj result
    have evaluated := synthesize_value "top" _ {} next two typed ⟨6⟩ after ran
      (fun _ => List.replicate 4 true) ?_
    · exact ⟨_, after, rfl, evaluated.1.trans (by decide +kernel)⟩
    · intro old net known
      obtain ⟨inside, rfl⟩ := Array.getElem?_eq_some_iff.mp known
      have first : old.index = 0 := Nat.lt_one_iff.mp inside
      cases old
      subst first
      rfl

end NetSynth
