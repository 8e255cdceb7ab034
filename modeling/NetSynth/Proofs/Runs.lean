import NetSynth.Synthesis.Run

/-! What a run comes to, as a predicate that is taken apart along the steps of the run. A `Build`
has two endings, an `Attempt` has three. -/
namespace NetSynth

variable {α β : Type} {design : Design}

namespace Build

/-- From the design the run comes to a value and a design with `done`, or it stops and leaves a
design with `stopped`. -/
def Ends (run : Build α) (design : Design) (done : α → Design → Prop)
    (stopped : Design → Prop) : Prop :=
  match run.runOn design with
  | (.ok value, after) => done value after
  | (.error _, after) => stopped after

variable {done done' : α → Design → Prop} {stopped stopped' : Design → Prop}

theorem Ends.imp {run : Build α} (ends : Ends run design done stopped)
    (onDone : ∀ value after, done value after → done' value after)
    (onStop : ∀ after, stopped after → stopped' after) : Ends run design done' stopped' := by
  unfold Ends at *
  split <;> simp_all

theorem ends_congr {run : Build α}
    (same : ∀ value after, done value after ↔ done' value after) :
    Ends run design done stopped ↔ Ends run design done' stopped :=
  ⟨fun ends => ends.imp (fun value after => (same value after).mp) (fun _ holds => holds),
    fun ends => ends.imp (fun value after => (same value after).mpr) (fun _ holds => holds)⟩

theorem Ends.and {run : Build α} (first : Ends run design done stopped)
    (second : Ends run design done' stopped') :
    Ends run design (fun value after => done value after ∧ done' value after)
      (fun after => stopped after ∧ stopped' after) := by
  unfold Ends at *
  split <;> simp_all

/-- What both endings come to is so of the design that is left. -/
theorem Ends.after {run : Build α} {left : Design → Prop}
    (ends : Ends run design (fun _ after => left after) left) : left (run.runOn design).2 := by
  unfold Ends at ends
  split at ends <;> simp_all

section Unstopped

variable {run : Build α} (ends : run.Ends design done fun _ => False)
include ends

/-- A run that cannot stop ends as its value does. -/
theorem Ends.mono (onDone : ∀ value after, done value after → done' value after) :
    run.Ends design done' stopped :=
  ends.imp onDone fun _ never => never.elim

theorem Ends.succeeds :
    ∃ value after, run.runOn design = (.ok value, after) ∧ done value after := by
  unfold Ends at ends
  split at ends
  · rename_i value after ran
    exact ⟨value, after, ran, ends⟩
  · contradiction

end Unstopped

theorem runOn_bind (run : Build α) (next : α → Build β) :
    runOn (run >>= next) design = match run.runOn design with
      | (.ok value, after) => (next value).runOn after
      | (.error stop, after) => (.error stop, after) := by
  simp only [runOn, ExceptT.run_bind, StateT.run_bind]
  change (match run.run.run design with | (result, after) => _) = _
  rcases run.run.run design with ⟨_ | _, _⟩ <;> rfl

@[simp] theorem ends_pure (value : α) : Ends (pure value) design done stopped ↔ done value design :=
  Iff.rfl

@[simp] theorem ends_bind {done : β → Design → Prop} (run : Build α) (next : α → Build β) :
    Ends (run >>= next) design done stopped ↔
      Ends run design (fun value after => Ends (next value) after done stopped) stopped := by
  simp only [Ends, runOn_bind]
  rcases run.runOn design with ⟨_ | _, _⟩ <;> rfl

@[simp] theorem ends_map {done : β → Design → Prop} (f : α → β) (run : Build α) :
    Ends (f <$> run) design done stopped ↔
      Ends run design (fun value after => done (f value) after) stopped := by
  rw [← bind_pure_comp, ends_bind]
  simp only [ends_pure]

@[simp] theorem ends_discard {done : Unit → Design → Prop} (run : Build α) :
    Ends (discard run) design done stopped ↔
      Ends run design (fun _ after => done () after) stopped := by
  rw [Functor.discard, map_const]
  exact ends_map _ _

@[simp] theorem ends_get {done : Design → Design → Prop} :
    Ends get design done stopped ↔ done design design := Iff.rfl

@[simp] theorem ends_throw (stop : Stop) :
    Ends (throw stop) design done stopped ↔ stopped design := Iff.rfl

@[simp] theorem ends_fail (fault : Fault) :
    Ends (fail fault) design done stopped ↔ stopped design := Iff.rfl

theorem ends_ensure {done : α → Design → Prop} (check : Except Fault α) :
    Ends (ensure check) design done stopped ↔
      match check with
      | .ok value => done value design
      | .error _ => stopped design := by
  cases check <;> rfl

theorem ends_net {done : Net → Design → Prop} (id : NetId) :
    Ends (net id) design done stopped ↔
      (∀ found, design.net? id = some found → done found design) ∧
        (design.net? id = none → stopped design) := by
  simp only [net, ends_bind, ends_get]
  cases design.net? id <;> simp

theorem ends_net_of {done : Net → Design → Prop} {id : NetId} {found : Net}
    (known : design.net? id = some found) :
    Ends (net id) design done stopped ↔ done found design := by
  simp [ends_net, known]

theorem ends_nameText {done : String → Design → Prop} (name : Name) :
    Ends (nameText name) design done stopped ↔
      (∀ text, design.names.text? name = some text → done text design) ∧
        (design.names.text? name = none → stopped design) := by
  simp only [nameText, ends_bind, ends_get]
  cases design.names.text? name <;> simp

theorem runOn_net {id : NetId} {found : Net} (known : design.net? id = some found) :
    (net id).runOn design = (.ok found, design) := by
  have got : (get : Build Design).runOn design = (.ok design, design) := rfl
  rw [net, runOn_bind, got]
  dsimp only
  rw [known]
  rfl

end Build

namespace Attempt

/-- From the design the attempt comes to a value and a design with `done`, or it fails and leaves
one with `failed`, or it stops and leaves one with `stopped`. -/
def Ends (attempt : Attempt α) (design : Design) (done : α → Design → Prop)
    (failed stopped : Design → Prop) : Prop :=
  Build.Ends attempt.run design
    (fun result after => match result with
      | some value => done value after
      | none => failed after) stopped

variable {done done' : α → Design → Prop} {failed failed' stopped stopped' : Design → Prop}

theorem Ends.imp {attempt : Attempt α} (ends : Ends attempt design done failed stopped)
    (onDone : ∀ value after, done value after → done' value after)
    (onFail : ∀ after, failed after → failed' after)
    (onStop : ∀ after, stopped after → stopped' after) :
    Ends attempt design done' failed' stopped' := by
  apply Build.Ends.imp ends
  · rintro (_ | value) after holds
    · exact onFail after holds
    · exact onDone value after holds
  · exact onStop

theorem Ends.and {attempt : Attempt α} (first : Ends attempt design done failed stopped)
    (second : Ends attempt design done' failed' stopped') :
    Ends attempt design (fun value after => done value after ∧ done' value after)
      (fun after => failed after ∧ failed' after) (fun after => stopped after ∧ stopped' after) := by
  apply (Build.Ends.and first second).imp
  · rintro (_ | value) after holds <;> exact holds
  · exact fun _ holds => holds

/-- The three endings, each with the run that comes to it. -/
theorem Ends.outcome {attempt : Attempt α} (ends : Ends attempt design done failed stopped) :
    (∃ value after, attempt.run.runOn design = (.ok (some value), after) ∧ done value after) ∨
      (∃ after, attempt.run.runOn design = (.ok none, after) ∧ failed after) ∨
      ∃ stop after, attempt.run.runOn design = (.error stop, after) ∧ stopped after := by
  unfold Ends Build.Ends at ends
  split at ends
  · rename_i result after ran
    cases result with
    | some value => exact .inl ⟨value, after, ran, ends⟩
    | none => exact .inr (.inl ⟨after, ran, ends⟩)
  · rename_i stop after ran
    exact .inr (.inr ⟨stop, after, ran, ends⟩)

/-- What holds of every success holds of a run that succeeded. -/
theorem Ends.of_ran {attempt : Attempt α} (ends : Ends attempt design done failed stopped)
    {value : α} {after : Design} (ran : attempt.run.runOn design = (.ok (some value), after)) :
    done value after := by
  unfold Ends Build.Ends at ends
  rwa [ran] at ends

theorem ends_ran (attempt : Attempt α) (design : Design) :
    Ends attempt design (fun value after => attempt.run.runOn design = (.ok (some value), after))
      (fun _ => True) fun _ => True := by
  unfold Ends Build.Ends
  split
  · rename_i result after ran
    cases result with
    | some value => exact ran
    | none => trivial
  · trivial

@[simp] theorem ends_pure (value : α) :
    Ends (pure value) design done failed stopped ↔ done value design := Iff.rfl

@[simp] theorem ends_fail (fault : Fault) :
    Ends (Build.fail fault : Build (Option α)) design done failed stopped ↔ stopped design := Iff.rfl

@[simp] theorem ends_liftM (run : Build α) :
    Ends (liftM run) design done failed stopped ↔ Build.Ends run design done stopped := by
  change Build.Ends (some <$> run) design _ stopped ↔ _
  rw [Build.ends_map]

@[simp] theorem ends_bind {done : β → Design → Prop} (attempt : Attempt α)
    (next : α → Attempt β) :
    Ends (attempt >>= next) design done failed stopped ↔
      Ends attempt design (fun value after => Ends (next value) after done failed stopped)
        failed stopped := by
  simp only [Ends, OptionT.run_bind, Build.ends_bind, Option.elimM]
  apply Build.ends_congr
  rintro (_ | value) after <;> rfl

@[simp] theorem ends_both {done : α × β → Design → Prop} (first : Attempt α)
    (second : Attempt β) :
    Ends (both first second) design done failed stopped ↔
      Ends first design
        (fun a after => Ends second after (fun b after => done (a, b) after) failed stopped)
        (fun after => Ends second after (fun _ after => failed after) failed stopped) stopped := by
  simp only [Ends, both, OptionT.run_mk, Build.ends_bind, Build.ends_pure]
  apply Build.ends_congr
  rintro (_ | a) after <;> apply Build.ends_congr
  · rintro (_ | b) _ <;> rfl
  · rintro (_ | b) _ <;> rfl

@[simp] theorem ends_orReport (attempt : Attempt α) (problem : Problem) (span : Span) :
    Ends (attempt.orReport problem span) design done failed stopped ↔
      Ends attempt design done
        (fun after => failed { after with log := after.log.report (problem.diagnostic span) })
        stopped := by
  simp only [Ends, orReport, OptionT.run_mk, Build.ends_bind]
  apply Build.ends_congr
  rintro (_ | a) _ <;> rfl

theorem run_bind (attempt : Attempt α) (next : α → Attempt β) (design : Design) :
    (attempt >>= next).run.runOn design = match attempt.run.runOn design with
      | (.ok (some value), after) => (next value).run.runOn after
      | (.ok none, after) => (.ok none, after)
      | (.error stop, after) => (.error stop, after) := by
  rw [OptionT.run_bind, Option.elimM, Build.runOn_bind]
  rcases attempt.run.runOn design with ⟨_ | _ | _, _⟩ <;> rfl

theorem run_both (first : Attempt α) (second : Attempt β) (design : Design) :
    (both first second).run.runOn design = match first.run.runOn design with
      | (.ok a, mid) => match second.run.runOn mid with
        | (.ok b, after) => (.ok (a.bind fun a => b.map fun b => (a, b)), after)
        | (.error stop, after) => (.error stop, after)
      | (.error stop, mid) => (.error stop, mid) := by
  rw [both, OptionT.run_mk, Build.runOn_bind]
  rcases first.run.runOn design with ⟨_ | a, mid⟩
  · rfl
  · simp only [Build.runOn_bind]
    rcases second.run.runOn mid with ⟨_ | b, after⟩ <;> rfl

theorem run_orReport (attempt : Attempt α) (problem : Problem) (span : Span) (design : Design) :
    (attempt.orReport problem span).run.runOn design = match attempt.run.runOn design with
      | (.ok (some value), after) => (.ok (some value), after)
      | (.ok none, after) => (reject problem span : Attempt α).run.runOn after
      | (.error stop, after) => (.error stop, after) := by
  rw [orReport, OptionT.run_mk, Build.runOn_bind]
  rcases attempt.run.runOn design with ⟨_ | _ | _, _⟩ <;> rfl

theorem run_liftM (run : Build α) (design : Design) :
    (liftM run : Attempt α).run.runOn design = match run.runOn design with
      | (.ok value, after) => (.ok (some value), after)
      | (.error stop, after) => (.error stop, after) := by
  change (some <$> run).runOn design = _
  rw [← bind_pure_comp, Build.runOn_bind]
  rcases run.runOn design with ⟨_ | _, _⟩ <;> rfl

end Attempt
end NetSynth
