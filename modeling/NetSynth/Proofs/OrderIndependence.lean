import NetSynth.Proofs.ErrorLimit
import NetSynth.Proofs.MirroredRules

/-! What an expression adds to a design does not depend on what was built before it. So the order of
expressions changes the numbers of their nets and nothing else. -/
namespace NetSynth

/-- Both requests return corresponding nets, or both fail, or both stop. -/
def EndAlike (rename : NetId → NetId) :
    Except Stop (Option NetId) → Except Stop (Option NetId) → Prop
  | .ok net, .ok net' => net' = net.map rename
  | .error _, .error _ => True
  | _, _ => False

/-- What a request adds to a design, whatever the numbers of the objects. -/
structure Contribution where
  /-- Whether it returns a net or fails; nothing stands for a request that stops. -/
  ending : Option Bool
  errors : Nat
  kinds : List DeviceKind

def Contribution.built (contribution : Contribution) : Bool := contribution.ending == some true

namespace Design

variable {first later design start : Design} {generation : Generation} {expr : Expr}
  {exprs exprs' : List Expr}

/-- A request takes the same course in a design that has grown since. -/
theorem synthesize_mirrors (stores : first.StoresWords) (grown : first.Grows later)
    (settings : SynthesisSettings) (covers : first.Covers expr) :
    let run := (synthesize settings expr).runOn first
    let run' := (synthesize settings expr).runOn later
    EndAlike (first.rename later) run.1 run'.1 ∧ first.Aligned later run.2 run'.2 := by
  have mirrors := Attempt.Repeats.build stores settings.generation covers (.refl grown)
  rw [synthesize]
  unfold Build.Ends at mirrors
  revert mirrors
  rcases (expr.build settings.generation).run.runOn first with ⟨_ | net, after⟩ <;>
    rcases (expr.build settings.generation).run.runOn later with ⟨_ | net', after'⟩
  · exact fun aligned => ⟨trivial, aligned⟩
  · exact False.elim
  · exact False.elim
  · rintro ⟨aligned, same⟩
    refine ⟨?_, aligned⟩
    cases same with
    | some same => exact congrArg some same
    | none => rfl

def contribution (design : Design) (generation : Generation) (expr : Expr) : Contribution :=
  let run := (synthesize { generation } expr).runOn design
  { ending := run.1.toOption.map Option.isSome
    errors := run.2.errorCount - design.errorCount
    kinds := (design.newDevices run.2).map Device.kind }

/-- A run has tried every expression and has added what the expressions contribute, in their
order. -/
structure Gathers (start : Design) (contributions : List Contribution) (outcomes : List Outcome)
    (after : Design) : Prop where
  grows : start.Grows after
  tried : .skipped ∉ outcomes
  ending : contributions.map (·.ending) = outcomes.map fun outcome => some outcome.isBuilt
  errors : after.errorCount = start.errorCount + (contributions.map (·.errors)).sum
  kinds : (start.newDevices after).map Device.kind = contributions.flatMap (·.kinds)

theorem gathers_nil (start : Design) : start.Gathers [] [] start where
  grows := .refl start
  tried := List.not_mem_nil
  ending := rfl
  errors := rfl
  kinds := by rw [newDevices_self]; rfl

theorem Gathers.append {mid after : Design} {contributions more : List Contribution}
    {outcomes others : List Outcome} (gathers : start.Gathers contributions outcomes mid)
    (rest : mid.Gathers more others after) :
    start.Gathers (contributions ++ more) (outcomes ++ others) after where
  grows := gathers.grows.trans rest.grows
  tried := by
    rw [List.mem_append]
    exact not_or_intro gathers.tried rest.tried
  ending := by rw [List.map_append, List.map_append, gathers.ending, rest.ending]
  errors := by
    rw [rest.errors, gathers.errors, List.map_append, List.sum_append, Nat.add_assoc]
  kinds := by
    rw [newDevices_append gathers.grows rest.grows, List.map_append, gathers.kinds, rest.kinds,
      List.flatMap_append]

theorem synthesize_gathers (stores : design.StoresWords) (grown : design.Grows start)
    (covers : design.Covers expr) :
    (synthesize { generation } expr).Ends start
      (fun net => start.Gathers [design.contribution generation expr] [.ofNet? net])
      fun _ => (design.contribution generation expr).ending = none := by
  obtain ⟨ending, aligned⟩ := synthesize_mirrors stores grown { generation } covers
  have kinds := aligned.kinds
  obtain ⟨problems, ⟨_, counted⟩, ⟨_, counted'⟩⟩ := aligned.log
  simp only [Build.Ends, contribution]
  revert ending
  rcases ran : (synthesize { generation } expr).runOn design with ⟨_ | net, one⟩ <;>
    rcases ran' : (synthesize { generation } expr).runOn start with ⟨_ | net', two⟩
  · exact fun _ => rfl
  · exact False.elim
  · exact False.elim
  · rintro rfl
    rw [ran] at kinds counted
    rw [ran'] at kinds counted' aligned
    dsimp only at counted counted'
    constructor
    · exact aligned.growsTwo
    · cases net <;> simp [Outcome.ofNet?]
    · cases net <;> rfl
    · simp only [errorCount, List.map_cons, List.map_nil, List.sum_singleton]
      omega
    · rw [kinds, List.flatMap_singleton]

/-- A run without a limit gathers the contributions of its expressions, and stops only if one of
them stops by itself. -/
theorem synthesizeEach_gathers (stores : design.StoresWords) (grown : design.Grows start)
    (covers : ∀ expr ∈ exprs, design.Covers expr) :
    (synthesizeEach ⟨generation, none⟩ exprs).Ends start
      (start.Gathers (exprs.map (design.contribution generation)))
      fun _ => ∃ expr ∈ exprs, (design.contribution generation expr).ending = none := by
  induction exprs generalizing start with
  | nil => exact start.gathers_nil
  | cons expr rest ih =>
    rw [List.forall_mem_cons] at covers
    have below : ¬SynthesisSettings.exhausted ⟨generation, none⟩ start = true := nofun
    simp only [synthesizeEach, Build.ends_bind, Build.ends_get, if_neg below, Build.ends_pure]
    apply (synthesize_gathers stores grown covers.1).imp
    · intro net mid gathers
      apply (ih (grown.trans gathers.grows) covers.2).imp
      · exact fun outcomes after more => gathers.append more
      · exact fun after ⟨other, member, stops⟩ => ⟨other, List.mem_cons_of_mem _ member, stops⟩
    · exact fun after stops => ⟨expr, List.mem_cons_self, stops⟩

theorem Gathers.complete {contributions : List Contribution} {outcomes : List Outcome}
    {after : Design} (gathers : start.Gathers contributions outcomes after) :
    outcomes.length = contributions.length := by
  simpa using (congrArg List.length gathers.ending).symm

theorem Gathers.built {contributions : List Contribution} {outcomes : List Outcome}
    {after : Design} (gathers : start.Gathers contributions outcomes after) :
    outcomes.map Outcome.isBuilt = contributions.map Contribution.built := by
  have same := congrArg (List.map (· == some true)) gathers.ending
  rw [List.map_map, List.map_map] at same
  calc outcomes.map Outcome.isBuilt
    _ = outcomes.map ((· == some true) ∘ fun outcome => some outcome.isBuilt) := by
      simp [Function.comp_def]
    _ = contributions.map Contribution.built := same.symm

/-- Two runs over the same expressions in another order. Each expression is built in both or fails
in both, and the runs count the same number of errors and make devices of the same kinds. -/
structure Reorders (design : Design) (exprs : List Expr) (report : RunReport) (after : Design)
    (exprs' : List Expr) (report' : RunReport) (after' : Design) : Prop where
  complete : report.outcomes.length = exprs.length ∧ report'.outcomes.length = exprs'.length
  tried : .skipped ∉ report.outcomes ∧ .skipped ∉ report'.outcomes
  outcomes : (exprs.zip (report.outcomes.map Outcome.isBuilt)).Perm
    (exprs'.zip (report'.outcomes.map Outcome.isBuilt))
  errors : report.errors = report'.errors
  kinds : ((design.newDevices after).map Device.kind).Perm
    ((design.newDevices after').map Device.kind)

theorem Gathers.reorders {outcomes outcomes' : List Outcome} {after after' : Design}
    (perm : exprs.Perm exprs')
    (gathers : design.Gathers (exprs.map (design.contribution generation)) outcomes after)
    (gathers' : design.Gathers (exprs'.map (design.contribution generation)) outcomes' after') :
    design.Reorders exprs ⟨outcomes, after.errorCount⟩ after exprs'
      ⟨outcomes', after'.errorCount⟩ after' := by
  have contributed := perm.map (design.contribution generation)
  constructor
  · exact ⟨by simpa using gathers.complete, by simpa using gathers'.complete⟩
  · exact ⟨gathers.tried, gathers'.tried⟩
  · dsimp only
    rw [gathers.built, gathers'.built, List.map_map, List.map_map, ← List.map_prod_left_eq_zip,
      ← List.map_prod_left_eq_zip]
    exact perm.map _
  · dsimp only
    rw [gathers.errors, gathers'.errors, (contributed.map (·.errors)).sum_nat]
  · rw [gathers.kinds, gathers'.kinds]
    exact contributed.flatMap_right _

theorem synthesizeAll_reorders (stores : design.StoresWords)
    (covers : ∀ expr ∈ exprs, design.Covers expr) (perm : exprs.Perm exprs') {report : RunReport}
    {after : Design}
    (ran : (synthesizeAll ⟨generation, none⟩ exprs).runOn design = (.ok report, after)) :
    ∃ report' after', (synthesizeAll ⟨generation, none⟩ exprs').runOn design =
      (.ok report', after') ∧ design.Reorders exprs report after exprs' report' after' := by
  have gathers := @synthesizeEach_gathers _ _ generation _ stores (.refl design) covers
  have gathers' := @synthesizeEach_gathers _ _ generation exprs' stores (.refl design)
    fun expr member => covers expr (perm.mem_iff.mpr member)
  rw [runOn_synthesizeAll] at ran ⊢
  unfold Build.Ends at gathers gathers'
  rcases ranEach : (synthesizeEach ⟨generation, none⟩ exprs).runOn design with ⟨_ | outcomes, mid⟩
  · rw [ranEach] at ran
    cases ran
  · rw [ranEach] at ran gathers
    cases ran
    rcases ranEach' : (synthesizeEach ⟨generation, none⟩ exprs').runOn design with
      ⟨_ | outcomes', after'⟩ <;> rw [ranEach'] at gathers'
    · -- An expression that stops would have stopped the other run as well.
      obtain ⟨expr, member, stops⟩ := gathers'
      have listed : none ∈ (exprs.map (design.contribution generation)).map (·.ending) := by
        rw [← stops]
        exact List.mem_map_of_mem (List.mem_map_of_mem (perm.mem_iff.mpr member))
      rw [gathers.ending] at listed
      simp at listed
    · exact ⟨_, after', rfl, gathers.reorders perm gathers'⟩

end Design

/-- A request comes to the same in a design as in any that further requests have made of it: it ends
alike, reports the same and makes the same devices at corresponding nets. Without a limit on errors
the order of expressions therefore changes neither what becomes of each nor the number of errors nor
how many devices of each kind there are, unless one of them stops. -/
theorem synthesis_order_independent (rootName : String) (commands : List Command) :
    let design := Design.reached rootName commands
    (∀ calls settings expr, design.Covers expr →
      let later := (design.synthesized calls).2
      let run := (synthesize settings expr).runOn design
      let run' := (synthesize settings expr).runOn later
      Function.Injective (design.rename later) ∧
        EndAlike (design.rename later) run.1 run'.1 ∧ design.Aligned later run.2 run'.2) ∧
    ∀ generation exprs exprs' report after, (∀ expr ∈ exprs, design.Covers expr) →
      exprs.Perm exprs' →
      (synthesizeAll ⟨generation, none⟩ exprs).runOn design = (.ok report, after) →
      ∃ report' after', (synthesizeAll ⟨generation, none⟩ exprs').runOn design =
        (.ok report', after') ∧ design.Reorders exprs report after exprs' report' after' := by
  intro design
  have valid := (Design.reached_steps rootName commands).wellFormed
    (Design.wellFormed_empty rootName)
  have stores := valid.storesWords
  constructor
  · intro calls settings expr covers
    have grown := (Wiring.synthesized_wires calls design).1
    exact ⟨Design.rename_injective grown,
      Design.synthesize_mirrors stores grown settings covers⟩
  · intro generation exprs exprs' report after covers perm ran
    exact Design.synthesizeAll_reorders stores covers perm ran

/-- An inverter built a second time is the same at the next net, and an expression that fails may
stand on either side of it. -/
theorem synthesis_order_independent_inverter :
    let design := Design.reached "top" [.addSignal .root "a" (.vector 4 false) .nowhere]
    let node : Node := ⟨.vector 4 false, .nowhere⟩
    let inverter := Expr.unary node .invert (.signal node ⟨0⟩)
    let event := Expr.event ⟨.bit, .nowhere⟩
    let later := (design.synthesized [({}, inverter)]).2
    let run := (synthesize {} inverter).runOn design
    let run' := (synthesize {} inverter).runOn later
    design.Covers inverter ∧ design.Covers event ∧
      run.1.toOption = some (some ⟨1⟩) ∧ run'.1.toOption = some (some ⟨2⟩) ∧
      EndAlike (design.rename later) run.1 run'.1 ∧ design.Aligned later run.2 run'.2 ∧
      ∃ report after report' after', report.outcomes = [.built ⟨1⟩, .failed] ∧
        (synthesizeAll ⟨.v2001, none⟩ [inverter, event]).runOn design = (.ok report, after) ∧
        (synthesizeAll ⟨.v2001, none⟩ [event, inverter]).runOn design = (.ok report', after') ∧
        design.Reorders [inverter, event] report after [event, inverter] report' after' := by
  intro design node inverter event later run run'
  have onInverter : design.Covers inverter :=
    ⟨by decide +kernel, by simp [inverter, Expr.functions]⟩
  have onEvent : design.Covers event :=
    ⟨by simp [event, Expr.nets], by simp [event, Expr.functions]⟩
  obtain ⟨repeats, reorders⟩ := synthesis_order_independent "top"
    [.addSignal .root "a" (.vector 4 false) .nowhere]
  obtain ⟨_, ending, aligned⟩ := repeats [({}, inverter)] {} inverter onInverter
  have result : ((synthesizeAll ⟨.v2001, none⟩ [inverter, event]).runOn design).1.toOption =
      some ⟨[.built ⟨1⟩, .failed], 1⟩ := by decide +kernel
  rcases ran : (synthesizeAll ⟨.v2001, none⟩ [inverter, event]).runOn design with ⟨outcome, after⟩
  rw [ran] at result
  cases outcome with
  | error stop => cases result
  | ok report =>
    obtain rfl := Option.some.inj result
    obtain ⟨report', after', ran', same⟩ := reorders .v2001 _ [event, inverter] _ after
      (by simpa using ⟨onInverter, onEvent⟩) (.swap event inverter []) ran
    exact ⟨onInverter, onEvent, by decide +kernel, by decide +kernel, ending, aligned, _, after,
      report', after', rfl, rfl, ran', same⟩

end NetSynth
