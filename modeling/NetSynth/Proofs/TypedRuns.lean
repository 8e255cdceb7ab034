import NetSynth.Proofs.Accepted
import NetSynth.Proofs.Discipline

/-! Runs that never stop and return a net of a known type: looking at nets, making devices, and the
coercions. -/
namespace NetSynth

/-- The net has the type and stands in a scope that exists. -/
structure Design.Carries (design : Design) (id : NetId) (type : ValueType) : Prop where
  stored : ∃ net, design.net? id = some net ∧ net.toValueType = type ∧
    (design.scope? net.scope).isSome
  scalar : type.domain = .real → type.width = 1

namespace Design.Carries

variable {before after design : Design} {id : NetId} {type : ValueType}

theorem grows (carries : before.Carries id type) (grown : before.Grows after) :
    after.Carries id type := by
  obtain ⟨net, known, same, place⟩ := carries.stored
  obtain ⟨net', known', type', scope', _⟩ := grown.net known
  exact ⟨⟨net', known', type'.trans same, by rw [scope']; exact grown.scope place⟩, carries.scalar⟩

theorem sees (carries : design.Carries id type) : design.Sees id type.width type.domain := by
  obtain ⟨net, known, rfl, _⟩ := carries.stored
  exact sees_whole known

theorem sees_bit (carries : design.Carries id type) {index : Nat} (inside : index < type.width) :
    design.Sees (.bit id index) 1 type.domain := by
  obtain ⟨net, known, rfl, _⟩ := carries.stored
  exact Design.sees_bit known inside

theorem lasts (type : ValueType) : Lasts fun design id => design.Carries id type :=
  fun _ _ _ grown carries => carries.grows grown

end Design.Carries

/-- The type of a net after padding. Real nets stay as they are. -/
def ValueType.padTo (type : ValueType) (width : Nat) : ValueType :=
  if type.domain.isReal then type else { type with width := max type.width width }

theorem padTo_domain (type : ValueType) (width : Nat) :
    (type.padTo width).domain = type.domain := by
  rw [ValueType.padTo]
  split <;> rfl

def ValueType.cropTo (type : ValueType) (width : Nat) : ValueType :=
  { type with width := min type.width width }

namespace Typed

open Conduct

/-- The conduct of runs that do not stop, whatever happens to the design. -/
def unstopped : Conduct := ⟨fun _ _ => True, fun _ => False, fun _ _ => trivial⟩

variable {start : Design} {id : NetId} {type : ValueType} {α : Type}

/-- A net that is known to exist is found, with its type. -/
theorem look {C : Conduct} (carries : start.Carries id type) :
    C.Builds start (Build.net id) fun after found =>
      after.net? id = some found ∧ found.toValueType = type ∧ (after.scope? found.scope).isSome := by
  intro pending design grown holds
  obtain ⟨net, known, same, place⟩ := (carries.grows grown).stored
  rw [Build.ends_net_of known]
  exact ⟨.refl _, holds, known, same, place⟩

theorem lookBoth {C : Conduct} {a b : NetId} {typeA typeB : ValueType} {next : Net → Net → Attempt α}
    {value : Design → α → Prop} (onA : start.Carries a typeA) (onB : start.Carries b typeB)
    (rest : ∀ l r mid, start.Grows mid → mid.Carries a l.toValueType →
      mid.Carries b r.toValueType → l.toValueType = typeA → r.toValueType = typeB →
      (mid.scope? l.scope).isSome → C.Attempts mid (next l r) value) :
    C.Attempts start (do next (← Build.net a) (← Build.net b)) value := by
  apply (Attempts.lift (look onA)).bind
  rintro l mid grown ⟨_, sameA, place⟩
  apply (Attempts.lift (look (onB.grows grown))).bind
  rintro r mid' grown' ⟨_, sameB, _⟩
  have grownBoth := grown.trans grown'
  exact rest l r mid' grownBoth (sameA ▸ onA.grows grownBoth) (sameB ▸ onB.grows grownBoth) sameA
    sameB (grown'.scope place)

theorem drive {scope : ScopeId} {span : Span}
    {device : NetId → Build (DeviceKind × List Connection)} (place : (start.scope? scope).isSome)
    (scalar : type.domain = .real → type.width = 1)
    (given : ∀ out mid, start.Grows mid → mid.Carries out type →
      unstopped.Builds mid (device out) fun after result => after.Keeps result.1 result.2) :
    unstopped.Builds start (Build.drive scope type span device) fun after id =>
      after.Carries id type := by
  apply Builds.driveBy fun out mid result => mid.Keeps result.1 result.2 ∧ mid.Carries out type
  · intro pending design grows _
    obtain ⟨found, known⟩ := Option.isSome_iff_exists.mp (grows.scope place)
    have grown := design.grows_localNet scope found.nextLocal type span
    have carries : ((design.nameLocal scope found.nextLocal).2.pushNet scope
        (design.nameLocal scope found.nextLocal).1 .implicit type true span).2.Carries
          ⟨design.nets.size⟩ type := by
      refine ⟨⟨_, (Design.net?_pushNet ..).trans (if_pos rfl), rfl, ?_⟩, scalar⟩
      exact grown.scope (grows.scope place)
    rw [known]
    dsimp only
    rw [if_neg (ValueType.accepted scalar)]
    refine ⟨trivial, (given _ _ (grows.trans grown) carries).imp fun mid result more keeps => ?_⟩
    exact ⟨keeps, carries.grows more⟩
  · rintro out pending mid ⟨kind, connections⟩ grown _ ⟨keeps, carries⟩
    obtain ⟨found, known⟩ := Option.isSome_iff_exists.mp (grown.scope place)
    rw [Design.check_eq_ok_iff.mpr keeps, known]
    have placed := mid.grows_localDevice scope found.nextLocal kind connections span
    exact ⟨trivial, carries.grows placed⟩

/-- The common case of `drive`, where the device is known beforehand. -/
theorem drive_known {scope : ScopeId} {span : Span} {kind : NetId → DeviceKind}
    {connections : NetId → List Connection} (place : (start.scope? scope).isSome)
    (scalar : type.domain = .real → type.width = 1)
    (given : ∀ out after, start.Grows after → after.Carries out type →
      after.Keeps (kind out) (connections out)) :
    unstopped.Builds start
      (Build.drive scope type span fun out => return (kind out, connections out))
      fun after id => after.Carries id type :=
  drive place scalar fun out _ grown carries =>
    Builds.pure fun after more => given out after (grown.trans more) (carries.grows more)

theorem constant {scope : ScopeId} (place : (start.scope? scope).isSome) (value : Bits)
    (signed : Bool) (span : Span) :
    unstopped.Builds start (Build.constant scope value signed span) fun after id =>
      after.Carries id (.vector value.width signed) :=
  drive_known place (by simp [ValueType.vector]) fun _ _ _ carries =>
    Design.keeps_constant value carries.sees

theorem literal (place : (start.scope? .root).isSome) (value : Float) (span : Span) :
    unstopped.Builds start (Build.literal value span) fun after id =>
      after.Carries id ⟨1, .real, false⟩ :=
  drive_known place (fun _ => rfl) fun _ _ _ carries => Design.keeps_literal value carries.sees

theorem extend (carries : start.Carries id type) {width : Nat} (narrow : type.width < width)
    (vector : type.domain ≠ .real) (signed : Bool) (span : Span) :
    unstopped.Builds start (Build.extend id width signed span) fun after id =>
      after.Carries id ⟨width, type.domain, signed⟩ := by
  rw [Build.extend]
  apply (look carries).bind
  rintro source mid grown ⟨_, same, place⟩
  subst same
  rw [if_neg (Nat.not_le.mpr narrow)]
  refine drive place (fun real => absurd real vector) fun out mid₁ grown₁ onOut => ?_
  have source' := (carries.grows grown).grows grown₁
  cases signed with
  | true =>
    refine Builds.pure fun after more => ?_
    exact Design.keeps_signExtend (source'.grows more).sees (onOut.grows more).sees vector
  | false =>
    refine (constant (grown₁.scope place) _ _ _).bind fun padding mid₂ grown₂ onPadding => ?_
    refine Builds.pure fun after more => ?_
    have seesId := ((source'.grows grown₂).grows more).sees
    have seesPadding := (onPadding.grows more).sees
    refine Design.keeps_join seesId seesPadding ((onOut.grows grown₂).grows more).sees ?_
    exact Nat.add_sub_cancel' (Nat.le_of_lt narrow)

theorem pad (carries : start.Carries id type) (width : Nat) (span : Span) :
    unstopped.Builds start (Build.pad id width span) fun after id =>
      after.Carries id (type.padTo width) := by
  rw [Build.pad]
  apply (look carries).bind
  rintro source mid grown ⟨_, same, _⟩
  have carries := carries.grows grown
  subst same
  by_cases real : source.domain.isReal = true
  · rw [if_pos (by simp [real]), ValueType.padTo, if_pos real]
    exact Builds.pure fun after more => carries.grows more
  · by_cases wide : source.width ≥ width
    · rw [if_pos (by simp [wide]), ValueType.padTo, if_neg real, Nat.max_eq_left wide]
      exact Builds.pure fun after more => carries.grows more
    · rw [if_neg (by simp [real, wide]), ValueType.padTo, if_neg real,
        Nat.max_eq_right (Nat.le_of_not_le wide)]
      exact extend carries (Nat.lt_of_not_le wide) (by simpa [Domain.isReal] using real) _ _

theorem crop (carries : start.Carries id type) (width : Nat) (span : Span)
    (scalar : type.domain = .real → 1 ≤ width) :
    unstopped.Builds start (Build.crop id width span) fun after id =>
      after.Carries id (type.cropTo width) := by
  rw [Build.crop]
  apply (look carries).bind
  rintro source mid grown ⟨_, same, place⟩
  have carries := carries.grows grown
  subst same
  by_cases fits : source.width ≤ width
  · rw [if_pos fits, ValueType.cropTo, Nat.min_eq_left fits]
    exact Builds.pure fun after more => carries.grows more
  · rw [if_neg fits, ValueType.cropTo, Nat.min_eq_right (Nat.le_of_not_le fits)]
    refine drive_known place (fun real => ?_) fun out after more onOut => ?_
    · have single := carries.scalar real
      have asked := scalar real
      omega
    · exact Design.keeps_fixedPart 0 (carries.grows more).sees onOut.sees

/-- A net that is narrow enough is padded to exactly the width asked for. -/
theorem padUp (carries : start.Carries id type) {width : Nat} (narrow : type.width ≤ width)
    (scalar : type.domain = .real → type.width = width) (span : Span) :
    unstopped.Builds start (Build.pad id width span) fun after id =>
      after.Carries id { type with width } := by
  have same : type.padTo width = { type with width } := by
    rw [ValueType.padTo]
    split
    · rename_i real
      simp [← scalar (by simpa [Domain.isReal] using real)]
    · rw [Nat.max_eq_right narrow]
  exact same ▸ pad carries width span

theorem fit (carries : start.Carries id type) {width : Nat}
    (scalar : type.domain = .real → width = 1) (span : Span) :
    unstopped.Builds start (Build.fit id width span) fun after id =>
      after.Carries id { type with width } := by
  refine (pad carries width span).bind fun padded mid grown onPadded => ?_
  have same : (type.padTo width).cropTo width = { type with width } := by
    rw [ValueType.padTo]
    split
    · rename_i real
      have isReal : type.domain = .real := by simpa [Domain.isReal] using real
      simp [ValueType.cropTo, carries.scalar isReal, scalar isReal]
    · simp only [ValueType.cropTo, ValueType.mk.injEq, and_self, and_true]
      omega
  refine same ▸ crop onPadded width span fun real => ?_
  rw [padTo_domain] at real
  exact Nat.le_of_eq (scalar real).symm

end Typed
end NetSynth
