import NetSynth.Proofs.ValuedRules

/-! The words on the nets that the rules for concatenations, selections, conditionals and words of a
memory return. -/
namespace NetSynth.Valued

open Conduct

variable {base start : Design}

theorem concat_compute (words : Valuation) (out : NetId) (width : Nat) (inputs : List NetRef) :
    (DeviceKind.concat width inputs.length).compute? (pinWord words (Rule.gatePins out inputs)) =
      some (inputs.flatMap (·.read words)) := by
  rw [DeviceKind.compute?, List.flatMap_def, List.flatMap_def, pinWord_gatePins]

/-- The parts stand in a word from right to left, as often as they are repeated. -/
theorem read_inputs (words : Valuation) (ids : List NetId) (repeats : Nat) :
    ((List.replicate repeats (ids.reverse.map NetRef.whole)).flatten).flatMap (·.read words) =
      (List.replicate repeats (ids.map words).reverse.flatten).flatten := by
  have once : (ids.reverse.map NetRef.whole).flatMap (·.read words) =
      (ids.map words).reverse.flatten := by
    rw [List.flatMap_def, List.map_map, ← List.map_reverse]
    rfl
  rw [List.flatMap_def, List.map_flatten, List.flatten_flatten, List.map_map, List.map_replicate,
    ← once, List.flatMap_def]
  rfl

theorem concat {meaning : Expr → Valuation → Word} {parts : List Operand}
    (each : ∀ part ∈ parts, Shown base part (meaning part.expr)) {node : Node} {repeats : Nat} :
    anyhow.Attempts base (Rule.concat node parts repeats) fun after id =>
      base.Denotes after id fun words => (List.replicate repeats
        (parts.map fun part => meaning part.expr words).reverse.flatten).flatten := by
  have built : List.Forall₂ (fun attempt (part : Operand) => anyhow.Attempts base attempt
      fun after id => base.Shows after id part.expr.netType (meaning part.expr))
      (parts.map (·.build)) parts :=
    List.forall₂_map_left_iff.mpr (List.forall₂_same.mpr each)
  apply (Attempts.allOf (fun _ => shows_lasts) built).bind
  intro ids mid grown shown
  cases ids with
  | nil => exact attempt_fails
  | cons first rest =>
    have onFirst : ∃ type, mid.Carries first type := by
      cases shown with
      | cons onFirst _ => exact ⟨_, onFirst.carries⟩
    apply (Attempts.lift (Typed.look onFirst.choose_spec)).bind
    intro leftmost mid₁ grown₁ _
    apply Attempts.lift
    apply drive_known (grown.trans grown₁) (fun out => (Discipline.gatePins out _).1)
    intro out after words more settles
    have read : (first :: rest).map words = parts.map fun part => meaning part.expr words := by
      have earlier := settles_earlier (grown₁.trans more) settles
      refine List.forall₂_eq_eq_eq ▸ List.forall₂_map_left_iff.mpr ?_
      exact List.forall₂_map_right_iff.mpr (shown.imp fun id part known => known.denotes earlier)
    rw [concat_compute, read_inputs, read]

section Selection

variable {operand : Operand} {word : Valuation → Word} (onOperand : Shown base operand word)
include onOperand

theorem resize {node : Node} :
    anyhow.Attempts base (Rule.resize node operand) fun after id => base.Denotes after id
      fun words => .ofInt node.width ((word words).toInt node.signed) := by
  rw [Rule.resize]
  apply Attempts.bind onOperand
  intro id mid grown shown
  apply (Attempts.lift (Typed.look shown.carries)).bind
  rintro source mid₁ grown₁ ⟨_, same, _⟩
  have older := grown.trans grown₁
  have shown := shows_grows shown grown₁
  have sized : ∀ {after words}, mid₁.Grows after → base.Settles after words →
      (word words).length = source.width := fun more settles => by
    rw [shown.sized (settles_earlier more settles), ← same]
  split
  · rename_i narrow
    apply Attempts.lift
    apply (extend older shown _).imp
    intro after out more extended words settles
    have fits := sized more settles ▸ Nat.le_of_lt narrow
    exact (extended settles).trans (Word.extend_eq_ofInt fits)
  · rename_i wide
    apply Attempts.lift
    apply (crop older shown).imp
    intro after out more cropped words settles
    have covers := sized more settles ▸ Nat.le_of_not_lt wide
    exact (cropped settles).trans (Word.take_eq_ofInt _ covers)

omit onOperand in
theorem partBase_fixed {node : Node} {width : Nat} {start : Operand} {offset : Int}
    (fixed : start.expr.constant?.bind (·.toInt? start.expr.signed) = some offset) :
    anyhow.Attempts base (Rule.partBase node width start) fun _ result =>
      result = (.fixed offset.toNat, none) := by
  rw [Rule.partBase]
  simp only [fixed]
  split
  · exact Attempts.reject _ _
  · exact Attempts.pure fun _ _ => rfl

/-- A part whose place is known beforehand. -/
theorem partSelect {node : Node} {start : Operand} {offset : Int}
    (fixed : start.expr.constant?.bind (·.toInt? start.expr.signed) = some offset) :
    anyhow.Attempts base (Rule.partSelect node operand start) fun after id =>
      base.Denotes after id fun words => ((word words).drop offset.toNat).take node.width := by
  rw [Rule.partSelect]
  apply Attempts.bind onOperand
  intro id mid grown shown
  apply (Attempts.lift (Typed.look shown.carries)).bind
  intro source mid₁ grown₁ _
  apply (partBase_fixed fixed).bind
  intro result mid₂ grown₂ same
  subst same
  have shown := shows_grows shown (grown₁.trans grown₂)
  refine Attempts.lift (drive_known ((grown.trans grown₁).trans grown₂)
    (fun _ => by simp [Drives, PinName.direction]) fun out after words more settles => ?_)
  have read := shown.denotes (settles_earlier more settles)
  simp [DeviceKind.compute?, pinWord, NetRef.read, read]

end Selection

section Conditional

variable {wordC wordT wordF : Valuation → Word}

theorem choose {condition onTrue onFalse : NetId} {node : Node} {choice : Net} {domain : Domain}
    {typeC typeT typeF : ValueType} (trueSpan falseSpan : Span) (older : base.Grows start)
    (onC : base.Shows start condition typeC wordC) (onT : base.Shows start onTrue typeT wordT)
    (onF : base.Shows start onFalse typeF wordF) (same : choice.toValueType = typeC)
    (vectorT : typeT.domain ≠ .real) (vectorF : typeF.domain ≠ .real) :
    anyhow.Builds start
      (Rule.choose node condition onTrue onFalse trueSpan falseSpan choice domain)
      fun after id => base.Denotes after id fun words =>
        if (wordC words).truth then .ofInt node.width ((wordT words).toInt typeT.signed)
        else .ofInt node.width ((wordF words).toInt typeF.signed) := by
  rw [Rule.choose]
  split
  · exact fails
  · rename_i single
    have single : typeC.width = 1 := same ▸ Decidable.not_not.mp single
    have scalar : typeT.domain = .real → node.width = 1 := fun real => absurd real vectorT
    apply (builds_and (Typed.fit onT.carries scalar _) (fit older onT vectorT)).bind
    rintro t mid₁ grown₁ ⟨carriesT, onT⟩
    apply (fit (older.trans grown₁) (shows_grows onF grown₁) vectorF).bind
    intro f mid₂ grown₂ onF
    apply (Typed.look (carriesT.grows grown₂)).bind
    intro net mid₃ grown₃ _
    refine drive_known (older.trans ((grown₁.trans grown₂).trans grown₃))
      (fun _ => by simp [Drives, PinName.direction]) fun out after words more settles => ?_
    have earlier := settles_earlier (grown₁.trans (grown₂.trans (grown₃.trans more))) settles
    have readC := onC.denotes earlier
    have readT := onT (settles_earlier (grown₂.trans (grown₃.trans more)) settles)
    have readF := onF (settles_earlier (grown₃.trans more) settles)
    obtain ⟨bit, onBit⟩ := List.length_eq_one_iff.mp ((onC.sized earlier).trans single)
    cases bit <;> simp [DeviceKind.compute?, pinWord, NetRef.read, readC, readT, readF, onBit,
      Word.value, Word.truth]

theorem conditional {condition whenTrue whenFalse : Operand}
    (onCondition : Shown base condition wordC) (onTrue : Shown base whenTrue wordT)
    (onFalse : Shown base whenFalse wordF) {node : Node}
    (logicT : whenTrue.expr.node.domain = .logic) (logicF : whenFalse.expr.node.domain = .logic) :
    anyhow.Attempts base (Rule.conditional node condition whenTrue whenFalse) fun after id =>
      base.Denotes after id fun words => if (wordC words).truth then
          .ofInt node.width ((wordT words).toInt whenTrue.expr.netSigned)
        else .ofInt node.width ((wordF words).toInt whenFalse.expr.netSigned) := by
  rw [Rule.conditional]
  refine (Attempts.both shows_lasts onCondition (both onTrue onFalse)).bind ?_
  rintro ⟨c, t, f⟩ mid grown ⟨onC, onT, onF⟩
  apply Typed.lookBoth onT.carries onF.carries
  intro netT netF mid₁ grown₁ _ _ _ _ _
  split
  · exact Attempts.reject _ _
  · split
    · exact Attempts.reject _ _
    · have onC := shows_grows onC grown₁
      apply (Attempts.lift (Typed.look onC.carries)).bind
      rintro choice mid₂ grown₂ ⟨_, same, _⟩
      have more := grown₁.trans grown₂
      exact Attempts.lift (choose _ _ (grown.trans more) (shows_grows onC grown₂)
        (shows_grows onT more) (shows_grows onF more) same (by simp [logicT]) (by simp [logicF]))

end Conditional

/-- A definite index names a word of the memory as it was. -/
theorem word {memory : NetId} {net : Net} {words : MemoryWords} {index : Operand} {value : Bits}
    (known : base.net? memory = some net) (named : net.memory = some words)
    (fixed : index.expr.constant? = some value) (definite : value.isDefinite = true) {node : Node} :
    anyhow.Attempts base (Rule.word node memory index) fun after id => base.Denotes after id
      fun words => ((Expr.namedWord? base memory index.expr).map words).getD [] := by
  rw [Rule.word]
  refine (Attempts.lift (anyhow_builds (Typed.memoryOf known named))).bind ?_
  rintro ⟨found, words'⟩ mid grown ⟨_, _, rfl⟩
  have chosen : Expr.namedWord? base memory index.expr =
      (value.toInt? index.expr.signed).bind words'.word? := by
    simp [Expr.namedWord?, known, named, fixed, Option.bind_eq_bind]
  simp only [fixed, Option.filter, definite, if_true]
  cases result : (value.toInt? index.expr.signed).bind words'.word? with
  | none => exact attempt_fails
  | some id => exact Attempts.pure fun after more words settles => by simp [chosen, result]

end NetSynth.Valued
