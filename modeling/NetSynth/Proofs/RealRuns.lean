import NetSynth.Proofs.Discipline
import NetSynth.Proofs.RealPins

/-! Runs that keep real nets to the pins that carry them, or to those that nothing guards. The
coercions keep the domain of a net and touch no real net. -/
namespace NetSynth

namespace Design

variable {design before after : Design} {id : NetId} {real : Bool}

/-- From here on the net is real or not, as told. -/
def Fixed (design : Design) (id : NetId) (real : Bool) : Prop :=
  ∀ ⦃later⦄, design.Grows later → later.isReal id = real

/-- From here on the one net is real if and only if the other is. -/
def Alike (design : Design) (id id' : NetId) : Prop :=
  ∀ ⦃later⦄, design.Grows later → later.isReal id' = later.isReal id

/-- A device of the kind with these connections is there. -/
def Stores (design : Design) (made : DeviceKind × List Connection) : Prop :=
  ∃ id device, design.device? id = some device ∧ device.kind = made.1 ∧ device.connections = made.2

theorem Fixed.grows (fixed : before.Fixed id real) (grown : before.Grows after) :
    after.Fixed id real := fun _ more => fixed (grown.trans more)

theorem fixed_of {net : Net} (known : design.net? id = some net) :
    design.Fixed id net.domain.isReal := by
  intro later grown
  rw [grown.keepsTypes.isReal (Option.isSome_iff_exists.mpr ⟨net, known⟩), isReal_of known]

theorem alike_refl (design : Design) (id : NetId) : design.Alike id id := fun _ _ => rfl

theorem Alike.grows {id' : NetId} (alike : before.Alike id id') (grown : before.Grows after) :
    after.Alike id id' := fun _ more => alike (grown.trans more)

theorem Alike.trans {id' id'' : NetId} (first : design.Alike id id')
    (second : design.Alike id' id'') : design.Alike id id'' := fun _ grown => (second grown).trans (first grown)

theorem Fixed.alike {id' : NetId} (fixed : design.Fixed id real)
    (fixed' : design.Fixed id' real) : design.Alike id id' :=
  fun _ grown => (fixed' grown).trans (fixed grown).symm

theorem Stores.grows {made : DeviceKind × List Connection} (stores : before.Stores made)
    (grown : before.Grows after) : after.Stores made := by
  obtain ⟨id, device, stored, same⟩ := stores
  exact ⟨id, device, grown.device stored, same⟩

/-- A real net on a pin for vectors is out of place. -/
theorem Stores.misplaced {kind : DeviceKind} {connections : List Connection}
    (stores : design.Stores (kind, connections)) {connection : Connection}
    (member : connection ∈ connections) (real : design.isReal connection.ref.net = true)
    (vector : kind.carriesReal connection.pin = false) : ¬design.RealsInPlace := by
  obtain ⟨id, device, stored, rfl, rfl⟩ := stores
  intro inPlace
  have carried := inPlace stored connection member real
  rw [vector] at carried
  cases carried

/-- Real nets are confined, and where it is asked for they are in place in all designs on the way to
the last one. -/
structure Guards (design : Design) (strict : Prop) (last : Design) : Prop where
  valid : design.WellFormed
  confined : design.RealsConfined
  inPlace : strict → design.Grows last → design.RealsInPlace

theorem guards_empty (rootName : String) (strict : Prop) (last : Design) :
    (empty rootName).Guards strict last :=
  ⟨wellFormed_empty rootName, realsWithin_empty rootName _, fun _ _ => realsWithin_empty rootName _⟩

/-- What a device has to fulfil for that. -/
def Placed (design : Design) (strict : Prop) (last : Design)
    (made : DeviceKind × List Connection) : Prop :=
  design.Keeps made.1 made.2 → ∀ connection ∈ made.2, design.isReal connection.ref.net = true →
    (made.1.carriesReal connection.pin || made.1.unguarded connection.pin) = true ∧
      (strict → design.Grows last → made.1.carriesReal connection.pin = true)

variable {strict : Prop} {last : Design} {kind : DeviceKind} {connections : List Connection}

theorem placed_of_carries (carries : ∀ connection ∈ connections,
    design.isReal connection.ref.net = true → kind.carriesReal connection.pin = true) :
    design.Placed strict last (kind, connections) := by
  intro _ connection member real
  have carried := carries connection member real
  exact ⟨by simp [carried], fun _ _ => carried⟩

/-- The check keeps real nets off kinds for vectors alone. -/
theorem placed_of_vectors (vectors : kind.isLogicOnly = true) :
    design.Placed strict last (kind, connections) := by
  intro kept connection member real
  exact absurd (isReal_iff_shownDomain.mp real) (kept.vectors vectors connection member)

/-- What nothing guards is in place if it is not real in the last design. -/
theorem placed_of_unguarded (unguarded : ∀ connection ∈ connections,
      design.isReal connection.ref.net = true →
        (kind.carriesReal connection.pin || kind.unguarded connection.pin) = true)
    (vector : design.Keeps kind connections → strict → design.Grows last →
      ∀ connection ∈ connections, last.isReal connection.ref.net = true →
        kind.carriesReal connection.pin = true) :
    design.Placed strict last (kind, connections) :=
  fun kept connection member real => ⟨unguarded connection member real, fun asked grown =>
    vector kept asked grown connection member (grown.isReal real)⟩

namespace Guards

theorem of_devices (guards : before.Guards strict last) (valid : after.WellFormed)
    (grown : before.Grows after) (devices : after.devices = before.devices) :
    after.Guards strict last where
  valid := valid
  confined := guards.confined.of_devices guards.valid grown.keepsTypes devices
  inPlace := fun asked more =>
    (guards.inPlace asked (grown.trans more)).of_devices guards.valid grown.keepsTypes devices

theorem report (guards : design.Guards strict last) (diagnostic : Diagnostic) :
    Guards { design with log := design.log.report diagnostic } strict last :=
  guards.of_devices ((Step.report diagnostic).wellFormed guards.valid) (grows_report _ _) rfl

theorem nameLocal (guards : design.Guards strict last) (scope : ScopeId) (counter : Nat) :
    (design.nameLocal scope counter).2.Guards strict last :=
  guards.of_devices ((Step.nameLocal scope counter).wellFormed guards.valid)
    (grows_nameLocal _ _ _) rfl

theorem pushNet (guards : design.Guards strict last) (scope : ScopeId) (name : Name)
    (type : ValueType) (span : Span) (scalar : type.domain = .real → type.width = 1) :
    (design.pushNet scope name .implicit type true span).2.Guards strict last :=
  guards.of_devices ((Step.net scope name .implicit type true span scalar).wellFormed guards.valid)
    (grows_pushNet _ _ _ _ _) rfl

theorem pushDevice (guards : design.Guards strict last) (scope : ScopeId) (name : Name)
    (span : Span) (kept : design.Keeps kind connections)
    (placed : design.Placed strict last (kind, connections)) :
    (design.pushDevice scope name kind connections span).2.Guards strict last where
  valid := (Step.device scope name kind connections span (check_eq_ok_iff.mpr kept)).wellFormed
    guards.valid
  confined := guards.confined.pushDevice _ _ _ _ _ fun connection member real =>
    (placed kept connection member real).1
  inPlace := fun asked more => by
    have grown := (design.grows_pushDevice scope name kind connections span).trans more
    exact (guards.inPlace asked grown).pushDevice _ _ _ _ _ fun connection member real =>
      (placed kept connection member real).2 asked grown

end Guards

end Design

namespace Placing

open Conduct Design

variable {strict : Prop} {last start : Design} {α : Type} {id : NetId}

/-- The conduct of keeping real nets to their pins. A stop leaves them there. -/
def placing (strict : Prop) (last : Design) : Conduct :=
  ⟨fun _ design => design.Guards strict last, (·.Guards strict last),
    fun diagnostic guards => guards.report diagnostic⟩

theorem fail {value : Design → α → Prop} (fault : Fault) :
    (placing strict last).Builds start (Build.fail fault) value :=
  fun _ _ _ guards => ⟨.refl _, guards⟩

theorem net (id : NetId) : (placing strict last).Builds start (Build.net id) fun after found =>
    after.Fixed id found.domain.isReal ∧ (found.domain = .real → found.width = 1) := by
  intro pending design _ guards
  rw [Build.ends_net]
  exact ⟨fun found known => ⟨.refl _, guards, fixed_of known, guards.valid.scalar known⟩,
    fun _ => ⟨.refl _, guards⟩⟩

/-- The net that is driven has the domain of its type, and the device is there in the end. -/
theorem drive {scope : ScopeId} {type : ValueType} {span : Span}
    {device : NetId → Build (DeviceKind × List Connection)} {value : Design → NetId → Prop}
    (given : ∀ out mid, start.Grows mid → mid.Fixed out type.domain.isReal →
      (type.domain = .real → type.width = 1) →
      (placing strict last).Builds mid (device out) fun after made =>
        after.Placed strict last made ∧ ∀ final, after.Grows final → final.Stores made →
          value final out) :
    (placing strict last).Builds start (Build.drive scope type span device) value := by
  apply Builds.driveBy fun out after made => after.Placed strict last made ∧
    ∀ final, after.Grows final → final.Stores made → value final out
  · intro pending design grows guards
    cases known : design.scope? scope with
    | none => exact guards
    | some found =>
      dsimp only
      split
      · exact guards.nameLocal scope found.nextLocal
      · rename_i narrow
        have scalar : type.domain = .real → type.width = 1 := by
          intro real
          simpa [Domain.isReal, real] using narrow
        have grown := design.grows_localNet scope found.nextLocal type span
        refine ⟨(guards.nameLocal scope found.nextLocal).pushNet _ _ _ span scalar, ?_⟩
        exact given _ _ (grows.trans grown)
          (fixed_of ((net?_pushNet ..).trans (if_pos rfl))) scalar
  · rintro out pending mid ⟨kind, connections⟩ _ guards ⟨placed, shown⟩
    cases accepted : mid.check kind connections with
    | error fault => exact guards
    | ok _ =>
      cases known : mid.scope? scope with
      | none => exact guards
      | some found =>
        have kept := check_eq_ok_iff.mp accepted
        have named := mid.grows_nameLocal scope found.nextLocal
        have grown := mid.grows_localDevice scope found.nextLocal kind connections span
        have stored : (pushDevice scope (mid.nameLocal scope found.nextLocal).1 kind connections span
            (mid.nameLocal scope found.nextLocal).2).2.Stores (kind, connections) :=
          ⟨⟨mid.devices.size⟩, _, (device?_pushDevice ..).trans (if_pos rfl), rfl,
            kind.map_connect connections⟩
        refine ⟨(guards.nameLocal scope _).pushDevice _ _ span (kept.later named.keepsTypes) ?_,
          shown _ grown stored⟩
        -- The name that the device takes leaves the nets as they are.
        exact fun _ connection member real => ⟨(placed kept connection member real).1,
          fun asked more => (placed kept connection member real).2 asked (named.trans more)⟩

/-- The common case of `drive`, where the device is known beforehand. -/
theorem drive_known {scope : ScopeId} {type : ValueType} {span : Span} {kind : NetId → DeviceKind}
    {connections : NetId → List Connection} {value : Design → NetId → Prop}
    (placed : ∀ out after, start.Grows after → after.Fixed out type.domain.isReal →
      (type.domain = .real → type.width = 1) →
        after.Placed strict last (kind out, connections out))
    (shown : ∀ out final, start.Grows final → final.Fixed out type.domain.isReal →
      final.Stores (kind out, connections out) → value final out) :
    (placing strict last).Builds start
      (Build.drive scope type span fun out => return (kind out, connections out)) value :=
  drive fun out _ grown fixed scalar => Builds.pure fun after more =>
    ⟨placed out after (grown.trans more) (fixed.grows more) scalar, fun final later stores =>
      shown out final ((grown.trans more).trans later) (fixed.grows (more.trans later)) stores⟩

theorem constant (scope : ScopeId) (bits : Bits) (signed : Bool) (span : Span) :
    (placing strict last).Builds start (Build.constant scope bits signed span) fun after id =>
      after.Fixed id false := by
  refine drive_known (fun out after _ fixed _ => placed_of_carries ?_)
    fun _ _ _ fixed _ => fixed
  intro connection member real
  obtain rfl := List.mem_singleton.mp member
  rw [NetRef.net_whole, fixed (.refl _)] at real
  cases real

theorem literal (number : Float) (span : Span) :
    (placing strict last).Builds start (Build.literal number span) fun after id =>
      after.Fixed id true := by
  refine drive_known (fun out after _ _ _ => placed_of_carries ?_) fun _ _ _ fixed _ => fixed
  intro connection member _
  obtain rfl := List.mem_singleton.mp member
  rfl

theorem placed_of_none {design : Design} {kind : DeviceKind} {connections : List Connection}
    (none : ∀ connection ∈ connections, design.isReal connection.ref.net = false) :
    design.Placed strict last (kind, connections) :=
  placed_of_carries fun connection member real => by
    rw [none connection member] at real
    cases real

theorem isReal_eq_false_of_ne {domain : Domain} {width width' : Nat} (differ : width ≠ width')
    (scalar : domain = .real → width = 1) (scalar' : domain = .real → width' = 1) :
    domain.isReal = false := by
  by_contra real
  have real : domain = .real := by simpa [Domain.isReal] using real
  exact differ ((scalar real).trans (scalar' real).symm)

theorem extend (id : NetId) (width : Nat) (signed : Bool) (span : Span) :
    (placing strict last).Builds start (Build.extend id width signed span) fun after out =>
      after.Alike id out := by
  rw [Build.extend]
  apply (net id).bind
  rintro source mid grown ⟨onSource, scalar⟩
  split
  · exact fail _
  · rename_i narrow
    apply drive
    intro out mid₁ grown₁ onOut scalarOut
    have vector := isReal_eq_false_of_ne (Nat.ne_of_lt (Nat.lt_of_not_le narrow)) scalar scalarOut
    have onSource := onSource.grows grown₁
    dsimp only at onOut
    rw [vector] at onSource onOut
    split
    · exact Builds.pure fun after more => ⟨placed_of_vectors rfl, fun final later _ =>
        (onSource.grows (more.trans later)).alike (onOut.grows (more.trans later))⟩
    · apply (constant _ _ _ _).bind
      intro padding mid₂ grown₂ onPadding
      refine Builds.pure fun after more => ⟨placed_of_none ?_, fun final later _ => ?_⟩
      · have all := grown₂.trans more
        simp [(onOut.grows all) (.refl _), (onSource.grows all) (.refl _),
          (onPadding.grows more) (.refl _)]
      · have all := (grown₂.trans more).trans later
        exact (onSource.grows all).alike (onOut.grows all)

theorem pad (id : NetId) (width : Nat) (span : Span) :
    (placing strict last).Builds start (Build.pad id width span) fun after out =>
      after.Alike id out := by
  rw [Build.pad]
  refine (net id).bind fun source _ _ _ => ?_
  split
  · exact Builds.pure fun after _ => alike_refl after id
  · exact extend id width _ span

theorem crop (id : NetId) (width : Nat) (span : Span) :
    (placing strict last).Builds start (Build.crop id width span) fun after out =>
      after.Alike id out := by
  rw [Build.crop]
  apply (net id).bind
  rintro source mid grown ⟨onSource, scalar⟩
  split
  · exact Builds.pure fun after _ => alike_refl after id
  · rename_i wide
    refine drive_known (fun out after more onOut scalarOut => placed_of_none ?_)
      fun out final more onOut _ => (onSource.grows more).alike onOut
    have vector := isReal_eq_false_of_ne (Nat.ne_of_gt (Nat.lt_of_not_le wide)) scalar scalarOut
    have sourceVector := onSource more
    have outVector := onOut (.refl _)
    simp only [vector] at sourceVector outVector
    simp [sourceVector, outVector]

theorem fit (id : NetId) (width : Nat) (span : Span) :
    (placing strict last).Builds start (Build.fit id width span) fun after out =>
      after.Alike id out :=
  (pad id width span).bind fun padded _ _ onPadded =>
    (crop padded width span).imp fun _ _ grown onCropped => (onPadded.grows grown).trans onCropped

end Placing
end NetSynth
