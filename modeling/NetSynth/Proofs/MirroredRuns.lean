import NetSynth.Proofs.Mirror

/-! Two runs side by side: from aligned designs they end alike, leave aligned designs and return
values that correspond. -/
namespace NetSynth

variable {first later : Design} {α β γ δ : Type}

namespace Build

/-- From aligned designs both runs return, with values that correspond, or both stop. The designs
that they leave are aligned in either case. -/
def Mirrors (first later : Design) (run : Build α) (run' : Build β) (value : α → β → Prop) : Prop :=
  ∀ ⦃one two⦄, Design.Aligned first later one two → run.Ends one
    (fun a after => run'.Ends two
      (fun b after' => Design.Aligned first later after after' ∧ value a b) fun _ => False)
    fun after => run'.Ends two (fun _ _ => False) fun after' =>
      Design.Aligned first later after after'

namespace Mirrors

variable {value : α → β → Prop} {value' : γ → δ → Prop}

theorem pure {a : α} {b : β} (same : value a b) :
    Mirrors first later (Pure.pure a) (Pure.pure b) value :=
  fun _ _ aligned => ⟨aligned, same⟩

theorem fail (fault fault' : Fault) :
    Mirrors first later (Build.fail fault) (Build.fail fault') value :=
  fun _ _ aligned => aligned

theorem bind {run : Build α} {run' : Build β} {next : α → Build γ} {next' : β → Build δ}
    (onFirst : Mirrors first later run run' value)
    (onNext : ∀ a b, value a b → Mirrors first later (next a) (next' b) value') :
    Mirrors first later (run >>= next) (run' >>= next') value' := by
  intro one two aligned
  have ended := onFirst aligned
  simp only [ends_bind]
  unfold Ends at ended ⊢
  revert ended
  rcases run.runOn one with ⟨_ | a, after⟩ <;> rcases run'.runOn two with ⟨_ | b, after'⟩
  · exact fun ended => ended
  · exact False.elim
  · exact False.elim
  · exact fun ended => onNext a b ended.2 ended.1

theorem imp {run : Build α} {run' : Build β} {weaker : α → β → Prop}
    (mirrors : Mirrors first later run run' value) (given : ∀ a b, value a b → weaker a b) :
    Mirrors first later run run' weaker := by
  intro one two aligned
  apply (mirrors aligned).imp
  · exact fun a after ended => ended.imp (fun b after' known => ⟨known.1, given a b known.2⟩)
      fun _ stopped => stopped
  · exact fun after stopped => stopped

/-- A choice that both runs make alike. -/
theorem ite {condition : Prop} [Decidable condition] {run other : Build α} {run' other' : Build β}
    (onTrue : condition → Mirrors first later run run' value)
    (onFalse : ¬condition → Mirrors first later other other' value) :
    Mirrors first later (if condition then run else other) (if condition then run' else other')
      value := by
  split
  · exact onTrue ‹_›
  · exact onFalse ‹_›

theorem net (id : NetId) :
    Mirrors first later (Build.net id) (Build.net (first.rename later id)) Net.Alike := by
  intro one two aligned
  have alike := aligned.nets id
  simp only [Build.ends_net]
  generalize one.net? id = found at alike
  generalize two.net? (first.rename later id) = found' at alike
  cases alike with
  | none => simp [aligned]
  | some same => simpa [aligned] using same

theorem addLocal (scope : ScopeId) (type : ValueType) (span : Span) :
    Mirrors first later (Build.addLocal scope type span) (Build.addLocal scope type span)
      (first.Renames later) := by
  intro one two aligned
  have place := aligned.scopes scope
  simp only [Build.ends_addLocal]
  generalize one.scope? scope = found at place
  generalize two.scope? scope = found' at place
  cases place with
  | none => exact aligned
  | @some found found' =>
    have named := aligned.nameLocal scope found.nextLocal found'.nextLocal
    dsimp only
    split
    · exact named
    · exact ⟨named.pushNet scope _ _ type span, aligned.rename_next.symm⟩

theorem addDevice (scope : ScopeId) (kind : DeviceKind) (connections : List Connection)
    (span : Span) : Mirrors first later (Build.addDevice scope kind connections span)
      (Build.addDevice scope kind (connections.map (.map (first.rename later))) span)
      fun _ _ => True := by
  intro one two aligned
  have place := aligned.scopes scope
  have accepted : two.check kind (connections.map (.map (first.rename later))) = .ok () ↔
      one.check kind connections = .ok () := by
    rw [Design.check_eq_ok_iff, Design.check_eq_ok_iff, aligned.nets.keeps_iff]
  simp only [Build.ends_addDevice]
  cases checked : one.check kind connections with
  | error fault =>
    rw [checked] at accepted
    cases checked' : two.check kind (connections.map (.map (first.rename later))) with
    | error fault' => exact aligned
    | ok _ => exact absurd (accepted.mp checked') nofun
  | ok _ =>
    rw [accepted.mpr checked]
    generalize one.scope? scope = found at place
    generalize two.scope? scope = found' at place
    cases place with
    | none => exact aligned
    | @some found found' =>
      have named := aligned.nameLocal scope found.nextLocal found'.nextLocal
      exact ⟨named.pushDevice scope _ _ kind connections span, trivial⟩

/-- A new net is driven alike if its device is found alike. -/
theorem drive {scope : ScopeId} {type : ValueType} {span : Span}
    {device device' : NetId → Build (DeviceKind × List Connection)}
    (each : ∀ out, Mirrors first later (device out) (device' (first.rename later out))
      fun result result' => result'.1 = result.1 ∧
        result'.2 = result.2.map (.map (first.rename later))) :
    Mirrors first later (Build.drive scope type span device)
      (Build.drive scope type span device') (first.Renames later) := by
  apply (addLocal scope type span).bind
  rintro out _ rfl
  apply (each out).bind
  rintro ⟨kind, connections⟩ ⟨kind', connections'⟩ ⟨sameKind, renamed⟩
  dsimp only at sameKind renamed
  subst sameKind renamed
  exact (addDevice scope _ connections span).bind fun _ _ _ => pure rfl

/-- The kind is found at once, and the connections correspond. -/
theorem driveOne {scope : ScopeId} {type : ValueType} {span : Span}
    {device device' : NetId → DeviceKind × List Connection}
    (kind : ∀ out, (device' (first.rename later out)).1 = (device out).1)
    (connections : ∀ out,
      (device' (first.rename later out)).2 = (device out).2.map (.map (first.rename later))) :
    Mirrors first later (Build.drive scope type span fun out => Pure.pure (device out))
      (Build.drive scope type span fun out => Pure.pure (device' out)) (first.Renames later) :=
  drive fun out => pure ⟨kind out, connections out⟩

variable (id : NetId) (width : Nat) (signed : Bool) (span : Span)

theorem constant (scope : ScopeId) (value : Bits) :
    Mirrors first later (Build.constant scope value signed span)
      (Build.constant scope value signed span) (first.Renames later) :=
  driveOne (fun _ => rfl) fun _ => rfl

theorem literal (value : Float) : Mirrors first later (Build.literal value span)
    (Build.literal value span) (first.Renames later) :=
  driveOne (fun _ => rfl) fun _ => rfl

theorem extend : Mirrors first later (Build.extend id width signed span)
    (Build.extend (first.rename later id) width signed span) (first.Renames later) := by
  apply (net id).bind
  intro source source' same
  rw [same.type, same.scope]
  refine ite (fun _ => fail _ _) fun _ => drive fun out => ?_
  refine ite (fun _ => pure ⟨rfl, rfl⟩) fun _ => ?_
  apply (constant false span source.scope _).bind
  rintro padding _ rfl
  exact pure ⟨rfl, rfl⟩

theorem pad : Mirrors first later (Build.pad id width span)
    (Build.pad (first.rename later id) width span) (first.Renames later) := by
  apply (net id).bind
  intro source source' same
  rw [same.type]
  exact ite (fun _ => pure rfl) fun _ => extend id width _ span

theorem crop : Mirrors first later (Build.crop id width span)
    (Build.crop (first.rename later id) width span) (first.Renames later) := by
  apply (net id).bind
  intro source source' same
  rw [same.type, same.scope]
  exact ite (fun _ => pure rfl) fun _ => driveOne (fun _ => rfl) fun _ => rfl

theorem fit : Mirrors first later (Build.fit id width span)
    (Build.fit (first.rename later id) width span) (first.Renames later) := by
  apply (pad id width span).bind
  rintro padded _ rfl
  exact crop padded width span

end Mirrors
end Build

namespace Attempt

/-- From aligned designs both attempts succeed, with values that correspond, or both fail, or both
stop. -/
def Mirrors (first later : Design) (attempt : Attempt α) (attempt' : Attempt β)
    (value : α → β → Prop) : Prop :=
  Build.Mirrors first later attempt.run attempt'.run (Option.Rel value)

namespace Mirrors

variable {value : α → β → Prop} {value' : γ → δ → Prop}

theorem pure {a : α} {b : β} (same : value a b) :
    Mirrors first later (Pure.pure a) (Pure.pure b) value :=
  Build.Mirrors.pure (.some same)

theorem fail (fault fault' : Fault) : Mirrors first later
    (Build.fail fault : Build (Option α)) (Build.fail fault' : Build (Option β)) value :=
  Build.Mirrors.fail fault fault'

/-- Both report the same. -/
theorem reject (problem : Problem) (span : Span) :
    Mirrors first later (Attempt.reject problem span) (Attempt.reject problem span) value :=
  fun _ _ aligned => ⟨aligned.report problem span, .none⟩

theorem lift {run : Build α} {run' : Build β} (mirrors : Build.Mirrors first later run run' value) :
    Mirrors first later (liftM run) (liftM run') value := by
  change Build.Mirrors first later (run >>= fun a => Pure.pure (some a))
    (run' >>= fun b => Pure.pure (some b)) (Option.Rel value)
  exact mirrors.bind fun _ _ same => .pure (.some same)

theorem bind {attempt : Attempt α} {attempt' : Attempt β} {next : α → Attempt γ}
    {next' : β → Attempt δ} (onFirst : Mirrors first later attempt attempt' value)
    (onNext : ∀ a b, value a b → Mirrors first later (next a) (next' b) value') :
    Mirrors first later (attempt >>= next) (attempt' >>= next') value' := by
  rw [Mirrors, OptionT.run_bind, OptionT.run_bind]
  apply Build.Mirrors.bind onFirst
  rintro _ _ (same | _)
  · exact onNext _ _ same
  · exact .pure .none

/-- The nets of two operands, looked up in turn. -/
theorem lookBoth {next : Net → Net → Attempt γ} {next' : Net → Net → Attempt δ} {a b : NetId}
    (onNext : ∀ left left' right right', left.Alike left' → right.Alike right' →
      Mirrors first later (next left right) (next' left' right') value') :
    Mirrors first later
      (do let left ← liftM (Build.net a); let right ← liftM (Build.net b); next left right)
      (do
        let left ← liftM (Build.net (first.rename later a))
        let right ← liftM (Build.net (first.rename later b))
        next' left right) value' := by
  apply (lift (.net a)).bind
  intro left left' sameLeft
  apply (lift (.net b)).bind
  intro right right' sameRight
  exact onNext left left' right right' sameLeft sameRight

theorem both {left : Attempt α} {left' : Attempt β} {right : Attempt γ} {right' : Attempt δ}
    (onLeft : Mirrors first later left left' value)
    (onRight : Mirrors first later right right' value') :
    Mirrors first later (Attempt.both left right) (Attempt.both left' right')
      fun pair pair' => value pair.1 pair'.1 ∧ value' pair.2 pair'.2 := by
  apply Build.Mirrors.bind onLeft
  intro a b same
  apply Build.Mirrors.bind onRight
  intro c d same'
  apply Build.Mirrors.pure
  cases same with
  | none => exact .none
  | some same => cases same' with
    | none => exact .none
    | some same' => exact .some ⟨same, same'⟩

theorem all {attempts : List (Attempt α)} {attempts' : List (Attempt β)}
    (each : List.Forall₂ (Mirrors first later · · value) attempts attempts') :
    Mirrors first later (Attempt.all attempts) (Attempt.all attempts') (List.Forall₂ value) := by
  induction each with
  | nil => exact pure .nil
  | cons onFirst _ ih => exact (both onFirst ih).bind fun _ _ same => pure (.cons same.1 same.2)

theorem orReport {attempt : Attempt α} {attempt' : Attempt β}
    (mirrors : Mirrors first later attempt attempt' value) (problem : Problem) (span : Span) :
    Mirrors first later (attempt.orReport problem span) (attempt'.orReport problem span) value := by
  apply Build.Mirrors.bind mirrors
  rintro _ _ (same | _)
  · exact .pure (.some same)
  · exact reject problem span

theorem imp {attempt : Attempt α} {attempt' : Attempt β} {weaker : α → β → Prop}
    (mirrors : Mirrors first later attempt attempt' value)
    (given : ∀ a b, value a b → weaker a b) : Mirrors first later attempt attempt' weaker := by
  apply Build.Mirrors.imp mirrors
  rintro _ _ (same | _)
  · exact .some (given _ _ same)
  · exact .none

theorem ite {condition : Prop} [Decidable condition] {attempt other : Attempt α}
    {attempt' other' : Attempt β}
    (onTrue : condition → Mirrors first later attempt attempt' value)
    (onFalse : ¬condition → Mirrors first later other other' value) :
    Mirrors first later (if condition then attempt else other)
      (if condition then attempt' else other') value := by
  split
  · exact onTrue ‹_›
  · exact onFalse ‹_›

end Mirrors
end Attempt
end NetSynth
