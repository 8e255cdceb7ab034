import NetSynth.Proofs.LocalNames

/-! Requests for a device. They are accepted exactly where the contract of the kind is kept, and a
refused request leaves no trace: all checks come before the name is taken and the pins are noted. -/
namespace NetSynth

namespace Design

/-- All that a design gains with a device: the device itself in the next place, its pins at the end
of what their nets show, and a name from the counter of its scope. -/
structure GainsDevice (before after : Design) (device : Device) : Prop where
  id : device.id = ⟨before.devices.size⟩
  devices : after.devices = before.devices.push device
  nets : ∀ id, after.net? id = (before.net? id).map fun net =>
    { net with endpoints := net.endpoints ++ (pinsOn device.id device.connections id).toArray }
  name : ∃ place, before.scope? device.scope = some place ∧
    before.names.intern (localText place.nextLocal) = (device.name, after.names)
  scopes : ∀ id, after.scope? id = (before.scope? id).map fun found =>
    if id = device.scope then { found with nextLocal := found.nextLocal + 1 } else found
  functions : after.functions = before.functions
  log : after.log = before.log

variable {design : Design} {scope : ScopeId} {place : Scope}

theorem gainsDevice_pushDevice (known : design.scope? scope = some place) (kind : DeviceKind)
    (connections : List Connection) (span : Span) :
    let named := design.nameLocal scope place.nextLocal
    design.GainsDevice (named.2.pushDevice scope named.1 kind connections span).2
      ⟨⟨design.devices.size⟩, named.1, scope, kind, kind.connect connections, span⟩ where
  id := rfl
  devices := rfl
  nets id := by
    rw [Device.connections_mk, DeviceKind.map_connect]
    exact net?_pushDevice _ _ _ _ _ id
  name := ⟨place, known, rfl⟩
  scopes id := (scope?_nameLocal id : (design.nameLocal scope place.nextLocal).2.scope? id = _)
  functions := rfl
  log := rfl

end Design

/-- Both endings of a request, each with what decides it. -/
theorem Build.ends_addDevice_gains (scope : ScopeId) (kind : DeviceKind)
    (connections : List Connection) (span : Span) (design : Design) :
    (addDevice scope kind connections span).Ends design
      (fun id after => (design.Keeps kind connections ∧ (design.scope? scope).isSome) ∧
        ∃ name, design.GainsDevice after
          ⟨id, name, scope, kind, kind.connect connections, span⟩)
      fun after => ¬(design.Keeps kind connections ∧ (design.scope? scope).isSome) ∧
        after = design := by
  rw [ends_addDevice]
  cases checked : design.check kind connections with
  | error fault =>
    constructor
    · rintro ⟨kept, _⟩
      rw [Design.check_eq_ok_iff.mpr kept] at checked
      cases checked
    · rfl
  | ok _ =>
    cases known : design.scope? scope with
    | none =>
      constructor
      · rintro ⟨_, place⟩
        cases place
      · rfl
    | some place =>
      constructor
      · exact ⟨Design.check_eq_ok_iff.mp checked, rfl⟩
      · exact ⟨_, Design.gainsDevice_pushDevice known kind connections span⟩

/-- A request for a device succeeds where the connections keep the contract of the kind and the
scope exists, and nowhere else. A refusal leaves the design as it was. A success adds the device,
its pins and its name, and nothing else. -/
theorem addDevice_succeeds_iff (design : Design) (scope : ScopeId) (kind : DeviceKind)
    (connections : List Connection) (span : Span) :
    let run := (Build.addDevice scope kind connections span).runOn design
    ((∃ id after, run = (.ok id, after)) ↔
      design.Keeps kind connections ∧ (design.scope? scope).isSome) ∧
    (∀ stop after, run = (.error stop, after) → after = design) ∧
    ∀ id after, run = (.ok id, after) →
      ∃ name, design.GainsDevice after
          ⟨id, name, scope, kind, kind.connect connections, span⟩ := by
  have ends := Build.ends_addDevice_gains scope kind connections span design
  unfold Build.Ends at ends
  rcases ran : (Build.addDevice scope kind connections span).runOn design with ⟨stop | id, after⟩
  · rw [ran] at ends
    obtain ⟨refused, same⟩ := ends
    simp [refused, same]
  · rw [ran] at ends
    obtain ⟨accepted, gains⟩ := ends
    simp [accepted, gains]

end NetSynth
