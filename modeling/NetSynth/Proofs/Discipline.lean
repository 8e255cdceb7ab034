import Mathlib.Data.List.Forall2
import NetSynth.Proofs.Expressions
import NetSynth.Proofs.Growth

/-! What all synthesis keeps, if its few primitive steps keep it: a local net waits for its driver
until the device that drives it is made, and input pins connect to usable nets only. -/
namespace NetSynth

/-- Of the connections one is an output, and it is the whole of the net. -/
def Drives (out : NetId) (connections : List Connection) : Prop :=
  (connections.filter (·.pin.direction == .output)).map (·.ref) = [.whole out]

theorem Drives.connect {out : NetId} {connections : List Connection}
    (drives : Drives out connections) (id : DeviceId) (name : Name) (scope : ScopeId)
    (kind : DeviceKind) (span : Span) :
    Drives out (Device.connections ⟨id, name, scope, kind, kind.connect connections, span⟩) := by
  rwa [Device.connections_mk, DeviceKind.map_connect]

/-- What is said of a value stays true as the design grows. -/
def Lasts (value : Design → α → Prop) : Prop :=
  ∀ ⦃before after a⦄, before.Grows after → value before a → value after a

/-- What holds between the steps of a run, with the nets that wait for a driver, and what a stop
leaves of it. -/
structure Conduct where
  holds : List NetId → Design → Prop
  stopped : Design → Prop
  report : ∀ {pending design} (diagnostic : Diagnostic), holds pending design →
    holds pending { design with log := design.log.report diagnostic }

/-- A conduct that every primitive step keeps, and the nets that input pins may connect to. -/
structure Discipline extends Conduct where
  usable : Design → NetId → Prop
  stop : ∀ {pending design}, holds pending design → stopped design
  usable_grows : ∀ {before after id}, before.Grows after → usable before id → usable after id
  usable_word : ∀ {design : Design} {memory found words id}, usable design memory →
    design.net? memory = some found → found.memory = some words → id ∈ words.words →
    usable design id
  localName : ∀ {pending design scope found}, holds pending design →
    design.scope? scope = some found → stopped (design.nameLocal scope found.nextLocal).2
  localNet : ∀ {pending design scope found} {type : ValueType} (span : Span),
    holds pending design → design.scope? scope = some found →
    (type.domain = .real → type.width = 1) →
    let named := design.nameLocal scope found.nextLocal
    holds (⟨design.nets.size⟩ :: pending)
      (named.2.pushNet scope named.1 .implicit type true span).2
  device : ∀ {out pending design scope found kind connections} (span : Span),
    holds (out :: pending) design → design.scope? scope = some found →
    design.check kind connections = .ok () → Drives out connections →
    (∀ connection ∈ connections, connection.pin.direction = .input →
      usable design connection.ref.net) →
    let named := design.nameLocal scope found.nextLocal
    let after := (named.2.pushDevice scope named.1 kind connections span).2
    holds pending after ∧ usable after out

namespace Conduct

variable {C : Conduct} {start later : Design} {α β : Type}

/-- From any design grown out of `start`, the run keeps the conduct and returns a value as
described. -/
def Builds (C : Conduct) (start : Design) (run : Build α) (value : Design → α → Prop) : Prop :=
  ∀ ⦃pending design⦄, start.Grows design → C.holds pending design →
    run.Ends design (fun a after => design.Grows after ∧ C.holds pending after ∧ value after a)
      (fun after => design.Grows after ∧ C.stopped after)

def Attempts (C : Conduct) (start : Design) (attempt : Attempt α)
    (value : Design → α → Prop) : Prop :=
  ∀ ⦃pending design⦄, start.Grows design → C.holds pending design →
    attempt.Ends design (fun a after => design.Grows after ∧ C.holds pending after ∧ value after a)
      (fun after => design.Grows after ∧ C.holds pending after)
      (fun after => design.Grows after ∧ C.stopped after)

variable {value : Design → α → Prop} {value' : Design → β → Prop}

theorem Builds.imp {run : Build α} {value' : Design → α → Prop} (builds : C.Builds start run value)
    (weaker : ∀ after a, start.Grows after → value after a → value' after a) :
    C.Builds start run value' :=
  fun _ _ grows holds => (builds grows holds).imp
    (fun a after ⟨grown, kept, known⟩ => ⟨grown, kept, weaker after a (grows.trans grown) known⟩)
    fun _ stopped => stopped

theorem Attempts.imp {attempt : Attempt α} {value' : Design → α → Prop}
    (attempts : C.Attempts start attempt value)
    (weaker : ∀ after a, start.Grows after → value after a → value' after a) :
    C.Attempts start attempt value' :=
  fun _ _ grows holds => (attempts grows holds).imp
    (fun a after ⟨grown, kept, known⟩ => ⟨grown, kept, weaker after a (grows.trans grown) known⟩)
    (fun _ failed => failed) fun _ stopped => stopped

theorem Builds.pure {a : α} (given : ∀ after, start.Grows after → value after a) :
    C.Builds start (pure a) value :=
  fun _ _ grows holds => ⟨.refl _, holds, given _ grows⟩

theorem Builds.bind {run : Build α} {next : α → Build β} (first : C.Builds start run value)
    (second : ∀ a mid, start.Grows mid → value mid a → C.Builds mid (next a) value') :
    C.Builds start (run >>= next) value' := by
  intro pending design grows holds
  rw [Build.ends_bind]
  apply (first grows holds).imp
  · rintro a mid ⟨grown, kept, known⟩
    apply (second a mid (grows.trans grown) known (.refl mid) kept).imp
    · exact fun b after ⟨more, rest⟩ => ⟨grown.trans more, rest⟩
    · exact fun after ⟨more, rest⟩ => ⟨grown.trans more, rest⟩
  · exact fun after stopped => stopped

/-- The steps of `drive`: a local net, whatever finds out its device, and the device. -/
theorem Builds.driveBy {scope : ScopeId} {type : ValueType} {span : Span}
    {device : NetId → Build (DeviceKind × List Connection)} {value : Design → NetId → Prop}
    (ready : NetId → Design → DeviceKind × List Connection → Prop)
    (net : ∀ ⦃pending design⦄, start.Grows design → C.holds pending design →
      match design.scope? scope with
      | none => C.stopped design
      | some found =>
          let named := design.nameLocal scope found.nextLocal
          let after := (named.2.pushNet scope named.1 .implicit type true span).2
          if (type.domain.isReal && type.width != 1) = true then C.stopped named.2
          else C.holds (⟨design.nets.size⟩ :: pending) after ∧
            C.Builds after (device ⟨design.nets.size⟩) (ready ⟨design.nets.size⟩))
    (place : ∀ ⦃out pending mid result⦄, start.Grows mid → C.holds (out :: pending) mid →
      ready out mid result →
      match mid.check result.1 result.2, mid.scope? scope with
      | .ok (), some found =>
          let named := mid.nameLocal scope found.nextLocal
          let after := (named.2.pushDevice scope named.1 result.1 result.2 span).2
          C.holds pending after ∧ value after out
      | _, _ => C.stopped mid) :
    C.Builds start (Build.drive scope type span device) value := by
  intro pending design grows holds
  have first := net grows holds
  simp only [Build.drive, Build.ends_bind, Build.ends_addLocal]
  cases known : design.scope? scope with
  | none =>
    rw [known] at first
    exact ⟨.refl _, first⟩
  | some found =>
    rw [known] at first
    have grown := design.grows_localNet scope found.nextLocal type span
    dsimp only at first ⊢
    split at first
    · rename_i wide
      rw [if_pos wide]
      exact ⟨design.grows_nameLocal scope found.nextLocal, first⟩
    · rename_i narrow
      rw [if_neg narrow]
      apply (first.2 (.refl _) first.1).imp
      · rintro ⟨kind, connections⟩ mid ⟨more, kept, known⟩
        have last := place ((grows.trans grown).trans more) kept known
        simp only [Build.ends_addDevice, Build.ends_pure]
        cases accepted : mid.check kind connections with
        | error fault =>
          rw [accepted] at last
          exact ⟨grown.trans more, last⟩
        | ok _ =>
          cases present : mid.scope? scope with
          | none =>
            rw [accepted, present] at last
            exact ⟨grown.trans more, last⟩
          | some found' =>
            rw [accepted, present] at last
            have placed := mid.grows_localDevice scope found'.nextLocal kind connections span
            exact ⟨(grown.trans more).trans placed, last⟩
      · rintro after ⟨more, stopped⟩
        exact ⟨grown.trans more, stopped⟩

theorem Attempts.pure {a : α} (given : ∀ after, start.Grows after → value after a) :
    C.Attempts start (pure a) value :=
  fun _ _ grows holds => ⟨.refl _, holds, given _ grows⟩

theorem Attempts.bind {attempt : Attempt α} {next : α → Attempt β}
    (first : C.Attempts start attempt value)
    (second : ∀ a mid, start.Grows mid → value mid a → C.Attempts mid (next a) value') :
    C.Attempts start (attempt >>= next) value' := by
  intro pending design grows holds
  rw [Attempt.ends_bind]
  apply (first grows holds).imp
  · rintro a mid ⟨grown, kept, known⟩
    apply (second a mid (grows.trans grown) known (.refl mid) kept).imp
    · exact fun b after ⟨more, rest⟩ => ⟨grown.trans more, rest⟩
    · exact fun after ⟨more, rest⟩ => ⟨grown.trans more, rest⟩
    · exact fun after ⟨more, rest⟩ => ⟨grown.trans more, rest⟩
  · exact fun after failed => failed
  · exact fun after stopped => stopped

theorem Attempts.lift {run : Build α} (given : C.Builds start run value) :
    C.Attempts start (liftM run) value := by
  intro pending design grows holds
  rw [Attempt.ends_liftM]
  exact given grows holds

theorem Attempts.reject (problem : Problem) (span : Span) :
    C.Attempts start (Attempt.reject problem span : Attempt α) value :=
  fun _ _ _ holds => ⟨Design.grows_report _ _, C.report _ holds⟩

/-- The second is run in any case, so a value of the first has to last until it is done. -/
theorem Attempts.both {first : Attempt α} {second : Attempt β}
    (lasts : Lasts value)
    (onFirst : C.Attempts start first value) (onSecond : C.Attempts start second value') :
    C.Attempts start (Attempt.both first second) fun after pair =>
      value after pair.1 ∧ value' after pair.2 := by
  intro pending design grows holds
  rw [Attempt.ends_both]
  apply (onFirst grows holds).imp
  · rintro a mid ⟨grown, kept, known⟩
    apply (onSecond (grows.trans grown) kept).imp
    · exact fun b after ⟨more, kept, known'⟩ => ⟨grown.trans more, kept, lasts more known, known'⟩
    · exact fun after ⟨more, rest⟩ => ⟨grown.trans more, rest⟩
    · exact fun after ⟨more, rest⟩ => ⟨grown.trans more, rest⟩
  · rintro mid ⟨grown, kept⟩
    apply (onSecond (grows.trans grown) kept).imp
    · exact fun b after ⟨more, kept, _⟩ => ⟨grown.trans more, kept⟩
    · exact fun after ⟨more, rest⟩ => ⟨grown.trans more, rest⟩
    · exact fun after ⟨more, rest⟩ => ⟨grown.trans more, rest⟩
  · exact fun after stopped => stopped

/-- Values that are described one by one, by the item that each attempt belongs to. -/
theorem Attempts.allOf {γ : Type} {attempts : List (Attempt α)} {items : List γ}
    {value : γ → Design → α → Prop} (lasts : ∀ item, Lasts (value item))
    (each : List.Forall₂ (fun attempt item => C.Attempts start attempt (value item))
      attempts items) :
    C.Attempts start (Attempt.all attempts) fun after as =>
      List.Forall₂ (fun a item => value item after a) as items := by
  induction each with
  | nil => exact Attempts.pure fun _ _ => .nil
  | @cons attempt item attempts items onFirst _ ih =>
    refine (Attempts.both (lasts item) onFirst ih).bind ?_
    rintro ⟨a, as⟩ mid _ ⟨known, knownRest⟩
    refine Attempts.pure fun after grown => .cons (lasts item grown known) ?_
    exact knownRest.imp fun a item known => lasts item grown known

theorem Attempts.all {attempts : List (Attempt α)}
    (lasts : Lasts value)
    (each : ∀ attempt ∈ attempts, C.Attempts start attempt value) :
    C.Attempts start (Attempt.all attempts) fun after as => ∀ a ∈ as, value after a := by
  induction attempts with
  | nil => exact Attempts.pure (by simp)
  | cons first rest ih =>
    have onRest := ih fun attempt member => each attempt (List.mem_cons_of_mem _ member)
    refine (Attempts.both lasts (each first List.mem_cons_self) onRest).bind ?_
    rintro ⟨a, as⟩ mid _ ⟨known, knownRest⟩
    refine Attempts.pure fun after grown b member => ?_
    rcases List.mem_cons.mp member with rfl | member
    · exact lasts grown known
    · exact lasts grown (knownRest b member)

theorem Attempts.orReport {attempt : Attempt α} (problem : Problem) (span : Span)
    (given : C.Attempts start attempt value) :
    C.Attempts start (attempt.orReport problem span) value := by
  intro pending design grows holds
  rw [Attempt.ends_orReport]
  apply (given grows holds).imp
  · exact fun a after rest => rest
  · exact fun after ⟨grown, kept⟩ => ⟨grown.trans (Design.grows_report _ _), C.report _ kept⟩
  · exact fun after rest => rest

theorem Builds.after {run : Build α} (builds : C.Builds start run value) (grown : start.Grows later) :
    C.Builds later run value :=
  fun _ _ more holds => builds (grown.trans more) holds

theorem Attempts.request {settings : SynthesisSettings} {expr : Expr}
    {value : Design → NetId → Prop}
    (attempts : C.Attempts start (expr.build settings.generation) value) :
    C.Builds start (synthesize settings expr) fun after result =>
      ∀ id, result = some id → value after id := by
  intro pending design grows holds
  apply Build.Ends.imp (attempts grows holds)
  · rintro (_ | id) after ended
    · exact ⟨ended.1, ended.2, by simp⟩
    · exact ⟨ended.1, ended.2.1, by simpa using ended.2.2⟩
  · exact fun after stopped => stopped

theorem Builds.synthesizeEach {settings : SynthesisSettings} {exprs : List Expr}
    (each : ∀ expr ∈ exprs, C.Builds start (synthesize settings expr) fun _ _ => True) :
    C.Builds start (NetSynth.synthesizeEach settings exprs) fun _ _ => True := by
  induction exprs generalizing start with
  | nil => exact Builds.pure fun _ _ => trivial
  | cons expr rest ih =>
    rw [NetSynth.synthesizeEach]
    intro pending design grows holds
    rw [Build.ends_bind, Build.ends_get]
    split
    · exact ⟨.refl _, holds, trivial⟩
    · refine (each expr List.mem_cons_self).bind (fun result mid more _ => ?_) grows holds
      refine (ih fun expr member => ?_).bind fun _ _ _ _ => Builds.pure fun _ _ => trivial
      exact (each expr (List.mem_cons_of_mem _ member)).after more

theorem Builds.synthesizeAll {settings : SynthesisSettings} {exprs : List Expr}
    (each : ∀ expr ∈ exprs, C.Builds start (synthesize settings expr) fun _ _ => True) :
    C.Builds start (NetSynth.synthesizeAll settings exprs) fun _ _ => True := by
  refine (Builds.synthesizeEach each).bind fun outcomes mid _ _ => ?_
  intro pending design _ holds
  rw [Build.ends_bind, Build.ends_get]
  exact ⟨.refl _, holds, trivial⟩

end Conduct

namespace Discipline

open Conduct

variable {D : Discipline} {start : Design} {α : Type} {value : Design → α → Prop}

theorem Builds.fail (fault : Fault) : D.Builds start (Build.fail fault) value :=
  fun _ _ _ holds => ⟨.refl _, D.stop holds⟩

theorem Attempts.fail (fault : Fault) :
    D.Attempts start (Build.fail fault : Build (Option α)) value :=
  fun _ _ _ holds => ⟨.refl _, D.stop holds⟩

theorem Builds.net (id : NetId) :
    D.Builds start (Build.net id) fun after found => after.net? id = some found := by
  intro pending design _ holds
  rw [Build.ends_net]
  exact ⟨fun found known => ⟨.refl _, holds, known⟩, fun _ => ⟨.refl _, D.stop holds⟩⟩

/-- The device may take steps of its own before it is known. -/
theorem Builds.drive {scope : ScopeId} {type : ValueType} {span : Span}
    {device : NetId → Build (DeviceKind × List Connection)}
    (given : ∀ out, D.Builds start (device out) fun after result =>
      Drives out result.2 ∧ ∀ connection ∈ result.2, connection.pin.direction = .input →
        D.usable after connection.ref.net) :
    D.Builds start (Build.drive scope type span device) D.usable := by
  apply Conduct.Builds.driveBy fun out after result =>
    Drives out result.2 ∧ ∀ connection ∈ result.2, connection.pin.direction = .input →
      D.usable after connection.ref.net
  · intro pending design grows holds
    cases known : design.scope? scope with
    | none => exact D.stop holds
    | some found =>
      dsimp only
      split
      · exact D.localName holds known
      · rename_i narrow
        have scalar : type.domain = .real → type.width = 1 := by
          intro real
          simpa [Domain.isReal, real] using narrow
        have grown := design.grows_localNet scope found.nextLocal type span
        refine ⟨D.localNet span holds known scalar, fun _ later more => ?_⟩
        exact given _ ((grows.trans grown).trans more)
  · rintro out pending mid ⟨kind, connections⟩ _ kept ⟨drives, usable⟩
    cases accepted : mid.check kind connections with
    | error fault => exact D.stop kept
    | ok _ =>
      cases known : mid.scope? scope with
      | none => exact D.stop kept
      | some found => exact D.device span kept known accepted drives usable

end Discipline
end NetSynth
