import NetSynth.Proofs.TypedRules

/-! When an attempt succeeds. A verdict says of an attempt that it fails exactly where a condition
does not hold; verdicts are put together along the steps of a run that does not stop. -/
namespace NetSynth

variable {α β γ : Type} {start : Design}

/-- The attempt does not fail with a report. -/
def Attempt.Commits (attempt : Attempt α) : Prop :=
  ∀ design, attempt.Ends design (fun _ _ => True) (fun _ => False) fun _ => True

namespace Attempt.Commits

theorem lift (run : Build α) : (liftM run : Attempt α).Commits := by
  intro design
  rw [ends_liftM, Build.Ends]
  split <;> trivial

theorem pure (a : α) : (Pure.pure a : Attempt α).Commits := fun _ => trivial

theorem fail (fault : Fault) : Commits (Build.fail fault : Build (Option α)) := fun _ => trivial

theorem bind {attempt : Attempt α} {next : α → Attempt β} (first : attempt.Commits)
    (second : ∀ a, (next a).Commits) : (attempt >>= next).Commits := by
  intro design
  rw [ends_bind]
  exact (first design).imp (fun a mid _ => second a mid) (fun _ failed => failed)
    fun _ stopped => stopped

end Attempt.Commits

/-- From any design grown out of `start`, the attempt succeeds only where `good` holds, and fails
only where it does not. -/
def Verdict (start : Design) (attempt : Attempt α) (good : Prop) : Prop :=
  ∀ ⦃design⦄, start.Grows design →
    attempt.Ends design (fun _ _ => good) (fun _ => ¬good) fun _ => True

/-- The attempt does not stop, its values are as described, and it succeeds exactly where `good`
holds. -/
structure Decides (start : Design) (attempt : Attempt α) (good : Prop)
    (value : Design → α → Prop) : Prop where
  attempts : Typed.unstopped.Attempts start attempt value
  verdict : Verdict start attempt good

namespace Decides

variable {good : Prop} {value : Design → α → Prop} {attempt : Attempt α}

theorem ends (decides : Decides start attempt good value) {design : Design}
    (grown : start.Grows design) :
    attempt.Ends design (fun a after => design.Grows after ∧ value after a ∧ good)
      (fun after => design.Grows after ∧ ¬good) fun _ => False := by
  have attempts := @decides.attempts [] design grown trivial
  apply (attempts.and (decides.verdict grown)).imp
  · exact fun a after ⟨⟨more, _, known⟩, holds⟩ => ⟨more, known, holds⟩
  · exact fun after ⟨⟨more, _⟩, refused⟩ => ⟨more, refused⟩
  · exact fun after ⟨⟨_, stopped⟩, _⟩ => stopped

theorem later {later : Design} (decides : Decides start attempt good value)
    (grown : start.Grows later) : Decides later attempt good value where
  attempts := fun _ _ more holds => decides.attempts (grown.trans more) holds
  verdict := fun _ more => decides.verdict (grown.trans more)

end Decides

namespace Verdict

variable {good : Prop} {attempt : Attempt α}

theorem congr {good' : Prop} (verdict : Verdict start attempt good) (same : good ↔ good') :
    Verdict start attempt good' := by
  rwa [← same]

theorem of_commits (commits : attempt.Commits) (holds : good) : Verdict start attempt good :=
  fun design _ => (commits design).imp (fun _ _ _ => holds) (fun _ => False.elim)
    fun _ stopped => stopped

theorem lift (run : Build α) (holds : good) : Verdict start (liftM run) good :=
  of_commits (.lift run) holds

theorem pure (a : α) (holds : good) : Verdict start (Pure.pure a) good := fun _ _ => holds

theorem fail (fault : Fault) : Verdict start (Build.fail fault : Build (Option α)) good :=
  fun _ _ => trivial

theorem reject {problem : Problem} {span : Span} (refused : ¬good) :
    Verdict start (Attempt.reject problem span : Attempt α) good := fun _ _ => refused

/-- An attempt that goes on unless something refuses it. -/
theorem guarded {refused : Bool} {problem : Problem} {span : Span}
    (needs : good → refused = false) (rest : refused = false → Verdict start attempt good) :
    Verdict start (if refused = true then Attempt.reject problem span else attempt) good := by
  cases refused with
  | true => exact reject fun holds => Bool.noConfusion (needs holds)
  | false => exact rest rfl

/-- A condition on what was done before has to follow from the condition in the end. -/
theorem bind {value : Design → α → Prop} {next : α → Attempt β} {whole : Prop}
    (first : Decides start attempt good value) (needs : whole → good)
    (second : ∀ a mid, start.Grows mid → value mid a → good → Verdict mid (next a) whole) :
    Verdict start (attempt >>= next) whole := by
  intro design grown
  rw [Attempt.ends_bind]
  apply (first.ends grown).imp
  · exact fun a mid ⟨more, known, holds⟩ => second a mid (grown.trans more) known holds (.refl mid)
  · exact fun _ ⟨_, refused⟩ holds => refused (needs holds)
  · exact fun _ => False.elim

/-- The verdict on a run that goes on with a value it certainly gets. -/
theorem bindLift {run : Build α} {value : Design → α → Prop} {next : α → Attempt β}
    (first : Typed.unstopped.Builds start run value)
    (second : ∀ a mid, start.Grows mid → value mid a → Verdict mid (next a) good) :
    Verdict start (liftM run >>= next) good :=
  bind ⟨.lift first, lift run trivial⟩ (fun _ => trivial) fun a mid grown known _ =>
    second a mid grown known

theorem look {id : NetId} {type : ValueType} {next : Net → Attempt α}
    (carries : start.Carries id type)
    (rest : ∀ net mid, start.Grows mid → net.toValueType = type → Verdict mid (next net) good) :
    Verdict start (liftM (Build.net id) >>= next) good :=
  bindLift (Typed.look carries) fun net mid grown ⟨_, same, _⟩ => rest net mid grown same

theorem lookBoth {a b : NetId} {typeA typeB : ValueType} {next : Net → Net → Attempt α}
    (onA : start.Carries a typeA) (onB : start.Carries b typeB)
    (rest : ∀ l r mid, start.Grows mid → l.toValueType = typeA → r.toValueType = typeB →
      Verdict mid (next l r) good) :
    Verdict start (do next (← Build.net a) (← Build.net b)) good := by
  refine look onA fun l mid grown sameA => look (onB.grows grown) fun r mid' more sameB => ?_
  exact rest l r mid' (grown.trans more) sameA sameB

end Verdict

namespace Decides

variable {value : Design → α → Prop} {value' : Design → β → Prop} {good good' : Prop}

/-- Both are attempted, and both have to succeed. -/
theorem both {first : Attempt α} {second : Attempt β} (lasts : Lasts value)
    (onFirst : Decides start first good value) (onSecond : Decides start second good' value') :
    Decides start (Attempt.both first second) (good ∧ good') fun after pair =>
      value after pair.1 ∧ value' after pair.2 where
  attempts := Conduct.Attempts.both lasts onFirst.attempts onSecond.attempts
  verdict := by
    intro design grown
    rw [Attempt.ends_both]
    apply (onFirst.ends grown).imp
    · rintro a mid ⟨more, _, holds⟩
      apply (onSecond.ends (grown.trans more)).imp
      · exact fun _ _ ⟨_, _, holds'⟩ => ⟨holds, holds'⟩
      · exact fun _ ⟨_, refused⟩ both => refused both.2
      · exact fun _ => False.elim
    · rintro mid ⟨more, refused⟩
      apply (onSecond.ends (grown.trans more)).imp
      · exact fun _ _ _ both => refused both.1
      · exact fun _ _ both => refused both.1
      · exact fun _ => False.elim
    · exact fun _ => False.elim

theorem all {attempts : List (Attempt α)} {items : List γ} {good : γ → Prop}
    {value : γ → Design → α → Prop} (lasts : ∀ item, Lasts (value item))
    (each : List.Forall₂ (fun attempt item => Decides start attempt (good item) (value item))
      attempts items) :
    Decides start (Attempt.all attempts) (∀ item ∈ items, good item) fun after as =>
      List.Forall₂ (fun a item => value item after a) as items where
  attempts := Conduct.Attempts.allOf lasts (each.imp fun _ _ decides => decides.attempts)
  verdict := by
    induction each with
    | nil => exact .pure _ (by simp)
    | @cons attempt item attempts items onFirst onRest ih =>
      have rest : Decides start (Attempt.all attempts) (∀ item ∈ items, good item) fun after as =>
          List.Forall₂ (fun a item => value item after a) as items :=
        ⟨Conduct.Attempts.allOf lasts (onRest.imp fun _ _ decides => decides.attempts), ih⟩
      rw [List.forall_mem_cons]
      exact .bind (both (lasts item) onFirst rest) id fun _ _ _ _ holds => .pure _ holds

theorem orReport {attempt : Attempt α} (decides : Decides start attempt good value)
    (problem : Problem) (span : Span) :
    Decides start (attempt.orReport problem span) good value where
  attempts := Conduct.Attempts.orReport problem span decides.attempts
  verdict := by
    intro design grown
    rw [Attempt.ends_orReport]
    exact decides.verdict grown

end Decides
end NetSynth
