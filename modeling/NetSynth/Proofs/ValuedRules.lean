import NetSynth.Proofs.Disciplined
import NetSynth.Proofs.TypedComposites
import NetSynth.Proofs.ValuedRuns

/-! The words on the nets that the rules for operators on bit vectors return. -/
namespace NetSynth.Valued

open Conduct

variable {base : Design}

/-- Building the operand returns, if anything, a net of the type of the expression with the word. -/
def Shown (base : Design) (operand : Operand) (word : Valuation → Word) : Prop :=
  anyhow.Attempts base operand.build fun after id => base.Shows after id operand.expr.netType word

theorem shows_lasts {type : ValueType} {word : Valuation → Word} :
    Lasts fun design id => base.Shows design id type word :=
  fun _ _ _ grown shown => shows_grows shown grown

/-- Two nets that are padded to one width carry the extended words. -/
theorem padBoth {start : Design} {a b : NetId} {typeA typeB : ValueType}
    {wordA wordB : Valuation → Word} {width : Nat} {spanA spanB : Span} {α : Type}
    {next : NetId → NetId → Attempt α} {value : Design → α → Prop} (older : base.Grows start)
    (shownA : base.Shows start a typeA wordA) (shownB : base.Shows start b typeB wordB)
    (vectorA : typeA.domain ≠ .real) (vectorB : typeB.domain ≠ .real)
    (rest : ∀ a' b' mid, start.Grows mid →
      base.Denotes mid a' (fun words => (wordA words).extend typeA.signed width) →
      base.Denotes mid b' (fun words => (wordB words).extend typeB.signed width) →
      anyhow.Attempts mid (next a' b') value) :
    anyhow.Attempts start (do next (← Build.pad a width spanA) (← Build.pad b width spanB)) value := by
  refine (Attempts.lift (pad older shownA vectorA)).bind fun a' mid grown onA => ?_
  apply (Attempts.lift (pad (older.trans grown) (shows_grows shownB grown) vectorB)).bind
  intro b' mid' grown' onB
  exact rest a' b' mid' (grown.trans grown') (denotes_grows onA grown') onB

section Binary

variable {left right : Operand} {wordL wordR : Valuation → Word}
  (onLeft : Shown base left wordL) (onRight : Shown base right wordR)
include onLeft onRight

theorem both : anyhow.Attempts base (Attempt.both left.build right.build) fun after pair =>
    base.Shows after pair.1 left.expr.netType wordL ∧
      base.Shows after pair.2 right.expr.netType wordR :=
  Attempts.both shows_lasts onLeft onRight

/-- Two vectors are not promoted. -/
theorem pair (bitsL : left.expr.isReal = false) (bitsR : right.expr.isReal = false) :
    anyhow.Attempts base (OperandPair.build left right) fun after args => args.real = false ∧
      base.Shows after args.left left.expr.netType wordL ∧
        base.Shows after args.right right.expr.netType wordR := by
  unfold OperandPair.build Operand.buildIn
  simp only [bitsL, bitsR, Bool.or_self, Bool.false_and, Bool.false_eq_true, if_false]
  refine (both onLeft onRight).bind ?_
  rintro ⟨l, r⟩ mid _ ⟨shownL, shownR⟩
  exact Attempts.pure fun after more => ⟨rfl, shows_grows shownL more, shows_grows shownR more⟩

theorem sum {node : Node} (op : Direction) (logicL : left.expr.node.domain = .logic)
    (logicR : right.expr.node.domain = .logic) :
    anyhow.Attempts base (Rule.sum node op left right) fun after id =>
      base.Denotes after id fun words => .ofInt node.width (op.compute
        ((wordL words).toInt left.expr.netSigned) ((wordR words).toInt right.expr.netSigned)) := by
  have bitsL : left.expr.isReal = false := by simp [Expr.isReal, logicL, Domain.isReal]
  have bitsR : right.expr.isReal = false := by simp [Expr.isReal, logicR, Domain.isReal]
  refine (pair onLeft onRight bitsL bitsR).bind fun args mid grown known => ?_
  obtain ⟨real, shownL, shownR⟩ := known
  simp only [real, Bool.false_eq_true, if_false]
  refine Typed.lookBoth shownL.carries shownR.carries fun l r mid₁ grown₁ _ _ sameL sameR _ => ?_
  have shownL := shows_grows shownL grown₁
  have shownR := shows_grows shownR grown₁
  split
  · exact attempt_fails
  · rename_i wide
    have vectorL : left.expr.netType.domain ≠ .real := by simp [Expr.netType, logicL]
    have vectorR : right.expr.netType.domain ≠ .real := by simp [Expr.netType, logicR]
    have older := grown.trans grown₁
    refine padBoth older shownL shownR vectorL vectorR fun a b mid₂ grown₂ onA onB => ?_
    apply Attempts.lift
    apply drive_known (older.trans grown₂) (fun _ => by simp [Drives, PinName.direction])
    intro out after words more settles
    have readA := onA (settles_earlier more settles)
    have readB := onB (settles_earlier more settles)
    have earlier := settles_earlier (grown₂.trans more) settles
    have narrowL : (wordL words).length ≤ node.width := by
      rw [shownL.sized earlier, ← sameL]
      omega
    have narrowR : (wordR words).length ≤ node.width := by
      rw [shownR.sized earlier, ← sameR]
      omega
    have sums := Word.ofInt_compute op left.expr.netSigned right.expr.netSigned narrowL narrowR
    simpa [DeviceKind.compute?, pinWord, NetRef.read, readA, readB] using sums

omit onLeft onRight in
/-- A gate that compares single bits decides what the comparator would. -/
theorem bitGate_decides {op : Comparison} {gate : Gate} (found : op.bitGate? = some gate)
    (signed a b : Bool) : gate.fold [a, b] =
      op.relation.decides (Word.toInt signed [a]) (Word.toInt signed [b]) := by
  revert found
  cases op <;> rintro ⟨⟩ <;> cases a <;> cases b <;> cases signed <;> rfl

omit onLeft onRight in
theorem comparer_compute (op : Comparison) (args : OperandPair) (signed : Bool) (out : NetId)
    {a b : NetId} {width : Nat} {words : Valuation} (lengthA : (words a).length = width)
    (lengthB : (words b).length = width) :
    let device := Rule.comparer op args width signed a b out
    device.1.compute? (pinWord words device.2) =
      some [op.relation.decides ((words a).toInt signed) ((words b).toInt signed)] := by
  rw [Rule.comparer]
  split
  · rename_i gate found
    split at found
    · rename_i single
      simp only [Bool.and_eq_true, beq_iff_eq] at single
      obtain ⟨bitA, onA⟩ := List.length_eq_one_iff.mp (lengthA.trans single.2)
      obtain ⟨bitB, onB⟩ := List.length_eq_one_iff.mp (lengthB.trans single.2)
      have decided := bitGate_decides found signed bitA bitB
      simpa [DeviceKind.compute?, pinWord, NetRef.read, onA, onB, List.range_succ] using decided
    · cases found
  · simp [DeviceKind.compute?, pinWord, NetRef.read]

theorem compare {node : Node} (op : Comparison) (logicL : left.expr.node.domain = .logic)
    (logicR : right.expr.node.domain = .logic) (signL : left.expr.netSigned = left.expr.signed)
    (signR : right.expr.netSigned = right.expr.signed)
    (signs : left.expr.signed = right.expr.signed) :
    anyhow.Attempts base (Rule.compare node op left right) fun after id =>
      base.Denotes after id fun words => [op.relation.decides
        ((wordL words).toInt left.expr.signed) ((wordR words).toInt right.expr.signed)] := by
  have bitsL : left.expr.isReal = false := by simp [Expr.isReal, logicL, Domain.isReal]
  have bitsR : right.expr.isReal = false := by simp [Expr.isReal, logicR, Domain.isReal]
  refine (pair onLeft onRight bitsL bitsR).bind fun args mid grown known => ?_
  obtain ⟨real, shownL, shownR⟩ := known
  split
  · exact Attempts.reject _ _
  · refine Typed.lookBoth shownL.carries shownR.carries fun l r mid₁ grown₁ _ _ sameL sameR _ => ?_
    have shownL := shows_grows shownL grown₁
    have shownR := shows_grows shownR grown₁
    have vectorL : left.expr.netType.domain ≠ .real := by simp [logicL]
    have vectorR : right.expr.netType.domain ≠ .real := by simp [logicR]
    have older := grown.trans grown₁
    simp only [real, Bool.false_eq_true, if_false]
    refine padBoth older shownL shownR vectorL vectorR fun a b mid₂ grown₂ onA onB => ?_
    refine Attempts.lift (drive_known (older.trans grown₂) ?_ fun out after words more settles => ?_)
    · intro out
      split <;> simp [Drives, PinName.direction]
    · have readA := onA (settles_earlier more settles)
      have readB := onB (settles_earlier more settles)
      have earlier := settles_earlier (grown₂.trans more) settles
      have narrowL : (wordL words).length ≤ max l.width r.width := by
        rw [shownL.sized earlier, ← sameL]
        exact Nat.le_max_left _ _
      have narrowR : (wordR words).length ≤ max l.width r.width := by
        rw [shownR.sized earlier, ← sameR]
        exact Nat.le_max_right _ _
      simp only [Expr.netType_signed, signL] at readA
      simp only [Expr.netType_signed, signR, ← signs] at readB
      have decided := comparer_compute op args left.expr.signed out
        (readA ▸ Word.length_extend narrowL) (readB ▸ Word.length_extend narrowR)
      rw [readA, readB, Word.toInt_extend narrowL, Word.toInt_extend narrowR] at decided
      rw [← signs, Bool.and_self]
      exact decided

omit onLeft onRight in
/-- A gate with two inputs works bit by bit. -/
theorem gate_zipWith (gate : Gate) {width : Nat} {a b : Word} (lengthA : a.length = width)
    (lengthB : b.length = width) :
    (List.range width).map (fun index => gate.fold [a.getD index false, b.getD index false]) =
      List.zipWith (fun x y => gate.fold [x, y]) a b := by
  refine List.ext_getElem (by simp [lengthA, lengthB]) fun index inside inside' => ?_
  simp only [List.length_map, List.length_range] at inside
  have inA : index < a.length := lengthA ▸ inside
  have inB : index < b.length := lengthB ▸ inside
  simp [List.getElem?_eq_getElem inA, List.getElem?_eq_getElem inB]

theorem bitwise {node : Node} (op : Bitwise) :
    anyhow.Attempts base (Rule.bitwise node op left right) fun after id =>
      base.Denotes after id fun words =>
        List.zipWith (fun a b => op.gate.fold [a, b]) (wordL words) (wordR words) := by
  refine (both onLeft onRight).bind ?_
  rintro ⟨a, b⟩ mid grown ⟨shownL, shownR⟩
  refine Typed.lookBoth shownL.carries shownR.carries fun l r mid₁ grown₁ _ _ sameL sameR _ => ?_
  have shownL := shows_grows shownL grown₁
  have shownR := shows_grows shownR grown₁
  split
  · exact Attempts.reject _ _
  · split
    · exact Attempts.reject _ _
    · rename_i equal
      apply Attempts.lift
      apply drive_known (grown.trans grown₁) (fun _ => by simp [Drives, PinName.direction])
      intro out after words more settles
      have earlier := settles_earlier more settles
      have lengthL : (wordL words).length = l.width := by rw [shownL.sized earlier, ← sameL]
      have lengthR : (wordR words).length = l.width := by
        rw [shownR.sized earlier, ← sameR]
        exact (Decidable.not_not.mp equal).symm
      have zipped := gate_zipWith op.gate lengthL lengthR
      simpa [DeviceKind.compute?, pinWord, NetRef.read, shownL.denotes earlier,
        shownR.denotes earlier, List.range_succ] using zipped

omit onLeft onRight in
theorem gate_single (gate : Gate) (words : Valuation) (out : NetId) (inputs : List NetRef) :
    (DeviceKind.logic gate 1 inputs.length).compute? (pinWord words (Rule.gatePins out inputs)) =
      some [gate.fold (inputs.map fun ref => (ref.read words).getD 0 false)] := by
  have read : (List.range inputs.length).map (fun index =>
      (pinWord words (Rule.gatePins out inputs) (.input index)).getD 0 false) =
        inputs.map fun ref => (ref.read words).getD 0 false := by
    have mapped := congrArg (List.map fun word => word.getD 0 false)
      (pinWord_gatePins words out inputs)
    simpa only [List.map_map, Function.comp_def] using mapped
  rw [DeviceKind.compute?, List.range_one, List.map_singleton, read]

omit onLeft onRight in
theorem bitRefs_read (words : Valuation) (id : NetId) {width : Nat}
    (length : (words id).length = width) :
    (Rule.bitRefs id width).map (fun ref => (ref.read words).getD 0 false) = words id := by
  have bits := map_getD_range length
  simpa [Rule.bitRefs, NetRef.read, Function.comp_def] using bits

theorem logical {node : Node} (op : Logical) :
    anyhow.Attempts base (Rule.logical node op left right) fun after id =>
      base.Denotes after id fun words =>
        (BinaryOp.logical op).compute 1 false false (wordL words) (wordR words) := by
  refine (both onLeft onRight).bind ?_
  rintro ⟨a, b⟩ mid grown ⟨shownL, shownR⟩
  refine Typed.lookBoth shownL.carries shownR.carries fun l r mid₁ grown₁ _ _ sameL sameR _ => ?_
  have shownL := shows_grows shownL grown₁
  have shownR := shows_grows shownR grown₁
  split
  · exact Attempts.reject _ _
  · refine Attempts.lift (drive (grown.trans grown₁) fun out mid₂ grown₂ => ?_)
    have inputs : anyhow.Builds mid₂ (Rule.logicalInputs op a b l.width r.width) fun after refs =>
        ∀ words, base.Settles after words →
          [op.gate.fold (refs.map fun ref => (ref.read words).getD 0 false)] =
            (BinaryOp.logical op).compute 1 false false (wordL words) (wordR words) := by
      cases op with
      | or =>
        refine Builds.pure fun after more words settles => ?_
        have earlier := settles_earlier (grown₂.trans more) settles
        have lengthL : (words a).length = l.width := by
          rw [shownL.denotes earlier, shownL.sized earlier, ← sameL]
        have lengthR : (words b).length = r.width := by
          rw [shownR.denotes earlier, shownR.sized earlier, ← sameR]
        rw [List.map_append, bitRefs_read words a lengthL, bitRefs_read words b lengthR,
          shownL.denotes earlier, shownR.denotes earlier]
        simp [Logical.gate, Gate.fold, BinaryOp.compute, Word.truth]
      | and =>
        simp only [Rule.logicalInputs]
        split
        · rename_i single
          refine Builds.pure fun after more words settles => ?_
          have earlier := settles_earlier (grown₂.trans more) settles
          obtain ⟨bitL, onL⟩ := List.length_eq_one_iff.mp
            ((shownL.sized earlier).trans (by rw [← sameL]; exact single.1))
          obtain ⟨bitR, onR⟩ := List.length_eq_one_iff.mp
            ((shownR.sized earlier).trans (by rw [← sameR]; exact single.2))
          simp [Logical.gate, Gate.fold, BinaryOp.compute, Word.truth, NetRef.read,
            shownL.denotes earlier, shownR.denotes earlier, onL, onR]
        · exact fails
    apply inputs.bind
    intro refs mid₃ grown₃ folded
    apply Builds.pure
    intro after more
    refine ⟨(Discipline.gatePins out refs).1, fun words settles => ?_⟩
    rw [gate_single, folded words (settles_earlier more settles)]

end Binary

section Unary

variable {operand : Operand} {word : Valuation → Word}
  (onOperand : Shown base operand word)
include onOperand

theorem unary {node : Node} {op : UnaryOp} {finish : NetId → Net → Build NetId}
    {result : Valuation → Word}
    (finishes : ∀ id input mid, base.Grows mid → base.Shows mid id input.toValueType word →
      anyhow.Builds mid (finish id input) fun after out => base.Denotes after out result) :
    anyhow.Attempts base (Rule.onVector node op operand finish) fun after id =>
      base.Denotes after id result := by
  rw [Rule.onVector]
  refine Attempts.bind onOperand fun id mid grown shown => ?_
  apply (Attempts.lift (Typed.look shown.carries)).bind
  rintro input mid₁ grown₁ ⟨_, same, _⟩
  split
  · exact Attempts.reject _ _
  · exact Attempts.lift (finishes id input mid₁ (grown.trans grown₁)
      (same ▸ shows_grows shown grown₁))

theorem invert {node : Node} :
    anyhow.Attempts base (Rule.onVector node .invert operand (Rule.invert node)) fun after id =>
      base.Denotes after id fun words => UnaryOp.compute .invert (word words) := by
  refine unary onOperand fun id input mid olderMid shown => ?_
  apply drive_known olderMid (fun _ => by simp [Drives, PinName.direction])
  intro out after words more settles
  have earlier := settles_earlier more settles
  have bits := map_getD_range (shown.sized earlier)
  have inverted := congrArg (List.map (!·)) bits
  simpa [DeviceKind.compute?, pinWord, NetRef.read, shown.denotes earlier, Gate.fold,
    UnaryOp.compute, Function.comp_def, List.range_succ] using inverted

theorem fold {node : Node} {op : UnaryOp} (mode : Reduction) :
    anyhow.Attempts base (Rule.onVector node op operand (Rule.fold node mode)) fun after id =>
      base.Denotes after id fun words => [mode.gate.fold (word words)] := by
  refine unary onOperand fun id input mid olderMid shown => ?_
  apply drive_known olderMid (fun _ => by simp [Drives, PinName.direction])
  intro out after words more settles
  have read := shown.denotes (settles_earlier more settles)
  simp [DeviceKind.compute?, pinWord, NetRef.read, read]

end Unary
end NetSynth.Valued
