import NetSynth.Proofs.RealRules

/-! Concatenations, selections, conditionals, words of memories and calls. Here real nets may get to
pins for vectors, and do so exactly where the expression misplaces them. -/
namespace NetSynth.Placing

open Conduct Design

variable {strict : Prop} {last start : Design}

theorem mem_gatePins {out : NetId} {inputs : List NetRef} {connection : Connection} :
    connection ∈ Rule.gatePins out inputs ↔ connection = ⟨.output, .whole out⟩ ∨
      ∃ index, ∃ inside : index < inputs.length, connection = ⟨.input index, inputs[index]⟩ := by
  simp only [Rule.gatePins, List.mem_cons, List.mem_mapIdx, eq_comm]

theorem mem_inputs {ids : List NetId} {repeats : Nat} {ref : NetRef} :
    ref ∈ (List.replicate repeats (ids.reverse.map NetRef.whole)).flatten ↔
      repeats ≠ 0 ∧ ∃ id ∈ ids, ref = .whole id := by
  simp only [List.mem_flatten, List.mem_replicate]
  constructor
  · rintro ⟨_, ⟨some, rfl⟩, member⟩
    obtain ⟨id, listed, rfl⟩ := List.mem_map.mp member
    exact ⟨some, id, List.mem_reverse.mp listed, rfl⟩
  · rintro ⟨some, id, listed, rfl⟩
    exact ⟨_, ⟨some, rfl⟩, List.mem_map.mpr ⟨id, List.mem_reverse.mpr listed, rfl⟩⟩

/-- The nets match the operands one by one. -/
def MatchAll (design : Design) (ids : List NetId) (parts : List Operand) : Prop :=
  List.Forall₂ (fun id (part : Operand) => design.Matches id part.expr) ids parts

variable {design : Design} {ids : List NetId} {parts : List Operand}

theorem MatchAll.grows {after : Design} (matched : MatchAll design ids parts)
    (grown : design.Grows after) : MatchAll after ids parts :=
  matched.imp fun _ _ known => Bears.grows known grown

/-- Which of the parts are real shows in the nets. -/
theorem MatchAll.realParts (matched : MatchAll design ids parts) {later : Design}
    (grown : design.Grows later) :
    Expr.realParts later (parts.map (·.expr)) = ids.map later.isReal := by
  rw [Expr.realParts_eq_map]
  induction matched with
  | nil => rfl
  | cons known _ ih => simp only [List.map_cons, ih, known.real grown]

theorem MatchAll.misplaced (matched : MatchAll design ids parts) {later : Design}
    (grown : design.Grows later)
    (misplaced : Expr.misplacesRealIn later (parts.map (·.expr)) = true) : ¬later.RealsInPlace := by
  rw [Expr.misplacesRealIn_eq_any] at misplaced
  induction matched with
  | nil => simp at misplaced
  | cons known _ ih =>
    rw [List.map_cons, List.any_cons, Bool.or_eq_true] at misplaced
    rcases misplaced with first | rest
    · exact known.misplaced grown first
    · exact ih rest

/-- A concatenation is in place without real inputs. Its output has no bits where there are none. -/
theorem placed_concat {out : NetId} {inputs : List NetRef} {width : Nat}
    (scalar : design.Grows last → last.isReal out = true → width = 1)
    (output : strict → design.Grows last → inputs ≠ [] → last.isReal out = false)
    (vectors : strict → design.Grows last → ∀ ref ∈ inputs, last.isReal ref.net = false) :
    design.Placed strict last (.concat width inputs.length, Rule.gatePins out inputs) := by
  refine placed_of_unguarded (fun _ _ _ => by simp [DeviceKind.unguarded]) ?_
  intro kept strictly grown connection member real
  exfalso
  rcases mem_gatePins.mp member with rfl | ⟨index, inside, rfl⟩
  · cases inputs with
    | nil =>
      have none := kept.sum width _ rfl
      rw [scalar grown real] at none
      simp [Rule.gatePins, PinName.isInput] at none
    | cons first rest =>
      rw [NetRef.net_whole, output strictly grown (List.cons_ne_nil first rest)] at real
      cases real
  · rw [vectors strictly grown _ (List.getElem_mem inside)] at real
    cases real

theorem concat_misplaced {out : NetId} {inputs : List NetRef} {width count : Nat}
    (stores : design.Stores (.concat width count, Rule.gatePins out inputs)) {ref : NetRef}
    (listed : ref ∈ inputs) (real : design.isReal ref.net = true) : ¬design.RealsInPlace := by
  obtain ⟨index, inside, rfl⟩ := List.mem_iff_getElem.mp listed
  exact stores.misplaced (mem_gatePins.mpr (.inr ⟨index, inside, rfl⟩)) real rfl

theorem concat (each : ∀ part ∈ parts, Places strict last start part) (node : Node) (repeats : Nat)
    (asked : strict → (Expr.concat node (parts.map (·.expr)) repeats).misplacesReal last = false) :
    (placing strict last).Attempts start (Rule.concat node parts repeats) fun after id =>
      after.Matches id (.concat node (parts.map (·.expr)) repeats) := by
  rw [Rule.concat]
  have built : List.Forall₂ (fun attempt (part : Operand) => (placing strict last).Attempts start
      attempt fun after id => after.Matches id part.expr) (parts.map (·.build)) parts := by
    rw [List.forall₂_map_left_iff, List.forall₂_same]
    exact each
  refine (Attempts.allOf (fun part => Bears.lasts _ _) built).bind fun ids mid _ matched => ?_
  have matched : MatchAll mid ids parts := matched
  cases ids with
  | nil => exact Attempts.lift (fail _)
  | cons first rest =>
    apply (Attempts.lift (net _)).bind
    rintro leftmost mid₁ grown₁ ⟨onFirst, _⟩
    have vectors : strict → mid₁.Grows last → repeats ≠ 0 →
        ∀ id ∈ first :: rest, last.isReal id = false := by
      intro strictly grown some
      have asked := asked strictly
      rw [Expr.misplacesReal, matched.realParts (grown₁.trans grown)] at asked
      simpa [some] using (Bool.or_eq_false_iff.mp asked).2
    apply Attempts.lift
    refine drive_known (fun out after more onOut scalar => ?_) fun out final more onOut stores => ?_
    · refine placed_concat (fun grown real => scalar ?_) ?_ ?_
      · simpa [Domain.isReal, onOut grown] using real
      · intro strictly grown nonempty
        rw [onOut grown, ← onFirst (more.trans grown)]
        refine vectors strictly (more.trans grown) (fun none => nonempty ?_) first List.mem_cons_self
        rw [none, List.replicate_zero, List.flatten_nil]
      · intro strictly grown ref listed
        obtain ⟨some, id, member, rfl⟩ := mem_inputs.mp listed
        exact vectors strictly (more.trans grown) some id member
    · refine ⟨fun later grown => ?_, fun later grown misplaced => ?_⟩
      · rw [Expr.buildsReal, matched.realParts ((grown₁.trans more).trans grown), onOut grown,
          ← onFirst (more.trans grown)]
        rfl
      · have all := (grown₁.trans more).trans grown
        rw [Expr.misplacesReal, Bool.or_eq_true, matched.realParts all] at misplaced
        rcases misplaced with inPart | here
        · exact matched.misplaced all inPart
        · simp only [Bool.and_eq_true, bne_iff_ne, List.any_map, List.any_eq_true] at here
          obtain ⟨some, id, listed, real⟩ := here
          exact concat_misplaced (stores.grows grown) (mem_inputs.mpr ⟨some, id, listed, rfl⟩) real

theorem resize {operand : Operand} (places : Places strict last start operand) (node : Node) :
    (placing strict last).Attempts start (Rule.resize node operand) fun after id =>
      after.Matches id (.resize node operand.expr) := by
  rw [Rule.resize]
  refine Attempts.bind places fun id mid _ matched => ?_
  refine (Attempts.lift (net _)).bind fun source mid₁ grown _ => ?_
  have same : ∀ after out, mid₁.Grows after → after.Alike id out →
      after.Matches out (.resize node operand.expr) := by
    intro after out more alike
    simp only [Matches, Expr.buildsReal, Expr.misplacesReal]
    exact (Bears.grows matched (grown.trans more)).alike alike
  split
  · exact Attempts.lift ((extend _ _ _ _).imp same)
  · exact Attempts.lift ((crop _ _ _).imp same)

/-- A base that is known beforehand is no net, and neither builds nor misplaces a real. -/
theorem partBase {base : Operand} (places : Places strict last start base) (node : Node)
    (width : Nat) : (placing strict last).Attempts start (Rule.partBase node width base)
      fun after result => ∀ ⦃later⦄, after.Grows later →
        result.2.any later.isReal = base.expr.buildsReal later ∧
          (base.expr.misplacesReal later = true → ¬later.RealsInPlace) := by
  rw [Rule.partBase]
  split
  · rename_i offset known
    obtain ⟨bits, constant, _⟩ := Option.bind_eq_some_iff.mp known
    split
    · exact Attempts.reject _ _
    · refine Attempts.pure fun _ _ later _ => ?_
      obtain ⟨builds, misplaces⟩ := constant_of constant later
      rw [builds, misplaces]
      exact ⟨rfl, fun misplaced => absurd misplaced Bool.false_ne_true⟩
  · refine Attempts.bind places fun id mid _ matched => ?_
    refine (Attempts.lift (net _)).bind fun source mid₁ grown _ => Attempts.pure ?_
    intro after more later last
    have all := (grown.trans more).trans last
    exact ⟨matched.real all, matched.misplaced all⟩

theorem partSelect {vector base : Operand} (onVector : Places strict last start vector)
    (onBase : Places strict last start base) (node : Node)
    (asked : strict → (Expr.partSelect node vector.expr base.expr).misplacesReal last = false) :
    (placing strict last).Attempts start (Rule.partSelect node vector base) fun after id =>
      after.Matches id (.partSelect node vector.expr base.expr) := by
  rw [Rule.partSelect]
  refine Attempts.bind onVector fun id mid grown matched => ?_
  apply (Attempts.lift (net _)).bind
  rintro source mid₁ grown₁ ⟨onSource, _⟩
  refine (partBase (onBase.later (grown.trans grown₁)) _ _).bind ?_
  rintro ⟨offset, offsetNet⟩ mid₂ grown₂ knownBase
  have all : ∀ {later}, mid₂.Grows later → later.isReal id = vector.expr.buildsReal later ∧
      later.isReal id = source.domain.isReal ∧
        offsetNet.any later.isReal = base.expr.buildsReal later := fun grown =>
    ⟨matched.real ((grown₁.trans grown₂).trans grown), onSource (grown₂.trans grown),
      (knownBase grown).1⟩
  apply Attempts.lift
  refine drive_known (fun out after more onOut _ => ?_) fun out final more onOut stores => ?_
  · refine placed_of_unguarded (fun _ _ _ => by simp [DeviceKind.unguarded]) ?_
    intro _ strictly grown connection member real
    exfalso
    obtain ⟨onVector, onSource, onBase⟩ := all (more.trans grown)
    have none := asked strictly
    rw [Expr.misplacesReal, ← onVector, ← onBase, Bool.or_eq_false_iff, Bool.or_eq_false_iff] at none
    rcases List.mem_append.mp member with pin | pin
    · simp only [List.mem_cons, List.not_mem_nil, or_false] at pin
      rcases pin with rfl | rfl
      · rw [NetRef.net_whole, none.1.2] at real
        cases real
      · rw [NetRef.net_whole, onOut grown, ← onSource, none.1.2] at real
        cases real
    · obtain ⟨baseNet, isBase, rfl⟩ := List.mem_map.mp pin
      rw [Option.mem_toList.mp isBase, Option.any_some] at none
      rw [NetRef.net_whole, none.2] at real
      cases real
  · refine ⟨fun later grown => ?_, fun later grown misplaced => ?_⟩
    · obtain ⟨onVector, onSource, _⟩ := all (more.trans grown)
      rw [Expr.buildsReal, onOut grown, ← onSource, onVector]
    · obtain ⟨onVector, _, onBase⟩ := all (more.trans grown)
      have made := stores.grows grown
      simp only [Expr.misplacesReal, ← onVector, ← onBase, Bool.or_eq_true] at misplaced
      rcases misplaced with ((inVector | inBase) | vector) | base
      · exact matched.misplaced (((grown₁.trans grown₂).trans more).trans grown) inVector
      · exact (knownBase (more.trans grown)).2 inBase
      · exact made.misplaced (List.mem_append_left _ List.mem_cons_self) vector rfl
      · obtain ⟨baseNet, rfl, real⟩ := (Option.any_eq_true _ _).mp base
        have listed := List.mem_singleton_self (⟨.base, .whole baseNet⟩ : Connection)
        exact made.misplaced (List.mem_append_right _ listed) real rfl

/-- The device of a conditional has the condition on a pin that nothing guards. -/
theorem choose {condition : Expr} (node : Node) {c t f : NetId} (trueSpan falseSpan : Span)
    (choice : Net) (domain : Domain) (onCondition : start.Matches c condition)
    (asked : strict → condition.buildsReal last = false) :
    (placing strict last).Builds start (Rule.choose node c t f trueSpan falseSpan choice domain)
      fun after out => after.Fixed out domain.isReal ∧
        ∀ ⦃later⦄, after.Grows later → condition.buildsReal later = true → ¬later.RealsInPlace := by
  rw [Rule.choose]
  split
  · exact fail _
  · refine (fit _ _ _).bind fun fitted mid₁ grown₁ _ => ?_
    refine (fit _ _ _).bind fun fitted' mid₂ grown₂ _ => ?_
    refine (net _).bind fun width mid₃ grown₃ _ => ?_
    have grown := (grown₁.trans grown₂).trans grown₃
    refine drive_known (fun out after more _ _ => ?_) fun out final more onOut stores => ?_
    · refine placed_of_unguarded ?_ fun _ strictly more' connection member real => ?_
      · simp [DeviceKind.carriesReal, DeviceKind.unguarded]
      · have none := asked strictly
        rw [← onCondition.real ((grown.trans more).trans more')] at none
        rcases List.mem_cons.mp member with rfl | others
        · rw [NetRef.net_whole, none] at real
          cases real
        · simp only [List.mem_cons, List.not_mem_nil, or_false] at others
          rcases others with rfl | rfl | rfl <;> rfl
    · refine ⟨onOut, fun later more' real => ?_⟩
      rw [← onCondition.real ((grown.trans more).trans more')] at real
      exact (stores.grows more').misplaced List.mem_cons_self real rfl

theorem conditional {condition whenTrue whenFalse : Operand}
    (onCondition : Places strict last start condition) (onTrue : Places strict last start whenTrue)
    (onFalse : Places strict last start whenFalse) (node : Node)
    (asked : strict → (Expr.conditional node condition.expr whenTrue.expr
      whenFalse.expr).misplacesReal last = false) :
    (placing strict last).Attempts start (Rule.conditional node condition whenTrue whenFalse)
      fun after id => after.Matches id
        (.conditional node condition.expr whenTrue.expr whenFalse.expr) := by
  rw [Rule.conditional]
  refine (Attempts.both (Bears.lasts _ _) onCondition (Attempts.both (Bears.lasts _ _) onTrue
    onFalse)).bind ?_
  rintro ⟨c, t, f⟩ mid _ ⟨onC, onT, onF⟩
  apply (Attempts.lift (net _)).bind
  rintro trueNet mid₁ grown₁ ⟨isTrue, _⟩
  refine (Attempts.lift (net _)).bind fun falseNet mid₂ grown₂ _ => ?_
  split
  · exact Attempts.reject _ _
  · split
    · exact Attempts.reject _ _
    · refine (Attempts.lift (net _)).bind fun choice mid₃ grown₃ _ => ?_
      have grown := (grown₁.trans grown₂).trans grown₃
      have none : strict → condition.expr.buildsReal last = false := fun strictly => by
        have none := asked strictly
        rw [Expr.misplacesReal, Bool.or_eq_false_iff] at none
        exact none.2
      refine Attempts.lift ((choose node _ _ choice _ (Bears.grows onC grown) none).imp ?_)
      rintro after out more ⟨onOut, shown⟩
      have all := grown.trans more
      refine ⟨fun later last => ?_, fun later last misplaced => ?_⟩
      · rw [Expr.buildsReal, onOut last, ← onT.real (all.trans last),
          isTrue ((grown₂.trans grown₃).trans (more.trans last))]
      · simp only [Expr.misplacesReal, Bool.or_eq_true] at misplaced
        rcases misplaced with ((inCondition | inTrue) | inFalse) | real
        · exact onC.misplaced (all.trans last) inCondition
        · exact onT.misplaced (all.trans last) inTrue
        · exact onF.misplaced (all.trans last) inFalse
        · exact shown last real

theorem memoryOf (memory : NetId) :
    (placing strict last).Builds start (Rule.memoryOf memory) fun after result =>
      ∀ id ∈ result.2.words, after.Fixed id false := by
  intro pending design _ guards
  simp only [Rule.memoryOf, Build.ends_bind, Build.ends_get]
  split
  · exact ⟨.refl _, guards⟩
  · split
    · exact ⟨.refl _, guards⟩
    · rename_i found known _ words named
      refine ⟨.refl _, guards, fun id member => ?_⟩
      have described := guards.valid.words known named
      obtain ⟨word, stored, type, _⟩ := described.nets id member
      have logic : word.domain = .logic := (congrArg ValueType.domain type).trans described.domain
      have fixed := fixed_of stored
      rw [logic] at fixed
      exact fixed

theorem word {index : Operand} (places : Places strict last start index) (node : Node)
    (memory : NetId) (asked : strict → (Expr.word node memory index.expr).misplacesReal last = false) :
    (placing strict last).Attempts start (Rule.word node memory index) fun after id =>
      after.Matches id (.word node memory index.expr) := by
  rw [Rule.word]
  refine (Attempts.lift (memoryOf memory)).bind ?_
  rintro ⟨found, words⟩ mid grown vectors
  dsimp only
  split
  · rename_i value definite
    have constant := constant_of (Option.filter_eq_some_iff.mp definite).1
    split
    · rename_i id chosen
      obtain ⟨integer, _, addressed⟩ := Option.bind_eq_some_iff.mp chosen
      obtain ⟨address, _, stored⟩ := Option.bind_eq_some_iff.mp addressed
      refine Attempts.pure fun after more => ⟨fun later last => ?_, fun later _ misplaced => ?_⟩
      · exact vectors id (Array.mem_of_getElem? stored) (more.trans last)
      · rw [Expr.misplacesReal, (constant later).1, (constant later).2] at misplaced
        cases misplaced
    · exact Attempts.lift (fail _)
  · refine Attempts.bind (places.later grown) fun address mid₁ grown₁ matched => ?_
    rw [Rule.wordAt]
    apply Attempts.lift
    refine (net _).bind fun source mid₂ grown₂ _ => ?_
    refine drive_known (fun out after more onOut _ => ?_) fun out final more onOut stores => ?_
    · have onOut : ∀ {later}, after.Grows later → later.isReal out = false := fun grown => onOut grown
      refine placed_of_unguarded ?_ fun _ strictly more' connection member real => ?_
      · simp [DeviceKind.unguarded, onOut (.refl _)]
      · exfalso
        have none := asked strictly
        rw [Expr.misplacesReal, Bool.or_eq_false_iff,
          ← matched.real ((grown₂.trans more).trans more')] at none
        simp only [List.mem_cons, List.not_mem_nil, or_false] at member
        rcases member with rfl | rfl
        · simp [none.2] at real
        · simp [onOut more'] at real
    · refine ⟨fun later more' => onOut more', fun later more' misplaced => ?_⟩
      have all := (grown₂.trans more).trans more'
      rw [Expr.misplacesReal, ← matched.real all, Bool.or_eq_true] at misplaced
      rcases misplaced with inIndex | real
      · exact matched.misplaced all inIndex
      · exact (stores.grows more').misplaced List.mem_cons_self real rfl

theorem fitArguments (arguments : List (NetId × Port × Operand)) :
    (placing strict last).Builds start (Rule.fitArguments arguments) fun _ _ => True := by
  induction arguments generalizing start with
  | nil => exact Builds.pure fun _ _ => trivial
  | cons argument rest ih =>
    refine (fit _ _ _).bind fun fitted mid _ _ => ?_
    exact ih.bind fun ids _ _ _ => Builds.pure fun _ _ => trivial

theorem functionOf (function : FunctionId) :
    (placing strict last).Builds start (Rule.functionOf function) fun after result =>
      after.function? function = some result.1 := by
  intro pending design _ guards
  rw [Build.ends_functionOf]
  split
  · exact ⟨.refl _, guards⟩
  · rename_i signature known
    split
    · exact ⟨.refl _, guards⟩
    · exact ⟨.refl _, guards, known⟩

/-- All pins of a call may carry reals, and the result has the domain that the function declares. -/
theorem call {arguments : List Operand}
    (each : ∀ argument ∈ arguments, Places strict last start argument) (node : Node)
    (function : FunctionId) (scope : ScopeId) :
    (placing strict last).Attempts start (Rule.call node function scope arguments) fun after id =>
      after.Matches id (.call node function scope (arguments.map (·.expr))) := by
  rw [Rule.call]
  refine (Attempts.lift (functionOf function)).bind ?_
  rintro ⟨signature, name⟩ mid grown known
  dsimp only at known ⊢
  split
  · exact Attempts.lift (fail _)
  · have built : List.Forall₂ (fun attempt (argument : Operand) => (placing strict last).Attempts mid
        attempt fun after id => after.Matches id argument.expr)
        (arguments.mapIdx fun position argument =>
          argument.build.orReport (.unbuiltArgument position name) argument.expr.span)
        arguments := by
      rw [List.forall₂_iff_get]
      refine ⟨by simp, fun position inside _ => ?_⟩
      simp only [List.get_eq_getElem, List.getElem_mapIdx]
      exact Attempts.orReport _ _ ((each _ (List.getElem_mem _)).later grown)
    refine (Attempts.allOf (fun argument => Bears.lasts _ _) built).bind ?_
    intro ids mid₁ grown₁ matched
    have matched : MatchAll mid₁ ids arguments := matched
    rw [Rule.callWith]
    apply Attempts.lift
    refine drive fun out mid₂ grown₂ onOut _ => ?_
    refine (fitArguments _).bind fun fitted mid₃ grown₃ _ => Builds.pure fun after more =>
      ⟨placed_of_carries fun _ _ _ => rfl, fun final later _ => ?_⟩
    have last := (grown₃.trans more).trans later
    refine ⟨fun later' more' => ?_, fun later' more' misplaced => ?_⟩
    · rw [Expr.buildsReal, ((grown₁.trans grown₂).trans (last.trans more')).function, known,
        Option.any_some, onOut (last.trans more')]
    · rw [Expr.misplacesReal] at misplaced
      exact matched.misplaced ((grown₂.trans last).trans more') misplaced

end NetSynth.Placing
