import NetSynth.Proofs.Interning
import NetSynth.Proofs.Primitives

/-! Growth of a design. Objects keep what they are, a net only gains pins of newer devices, and the
nets that are new are intermediate values. -/
namespace NetSynth.Design

/-- The later design holds all objects of the earlier one, under the same numbers. -/
structure Grows (before after : Design) : Prop where
  nets : ∀ {id net}, before.net? id = some net → ∃ added : Array Endpoint,
    after.net? id = some { net with endpoints := net.endpoints ++ added } ∧
      ∀ endpoint ∈ added, before.devices.size ≤ endpoint.device.index
  newNets : ∀ {id net}, before.net? id = none → after.net? id = some net →
    net.origin = .implicit ∧ net.isLocal = true ∧ net.memory = none
  devices : before.devices.toList <+: after.devices.toList
  scopes : ∀ {id scope}, before.scope? id = some scope → ∃ counter, scope.nextLocal ≤ counter ∧
    after.scope? id = some { scope with nextLocal := counter }
  noScopes : ∀ {id}, before.scope? id = none → after.scope? id = none
  functions : after.functions = before.functions
  names : before.names.texts.toList <+: after.names.texts.toList
  log : before.log.held.toList <+: after.log.held.toList

/-- A design that has the nets of another has as many, for they are numbered without gaps. -/
theorem net_count_le {before after : Design}
    (stays : ∀ id net, before.net? id = some net → ∃ net', after.net? id = some net') :
    before.nets.size ≤ after.nets.size := by
  refine Nat.le_of_not_lt fun inside => ?_
  have stored : before.net? ⟨after.nets.size⟩ = some before.nets[after.nets.size] :=
    Array.getElem?_eq_getElem inside
  obtain ⟨net', found⟩ := stays _ _ stored
  simp [net?] at found

namespace Grows

variable {before after later : Design}

theorem refl (design : Design) : Grows design design where
  nets := fun known => ⟨#[], by simpa using known, by simp⟩
  newNets := fun absent known => by simp [absent] at known
  devices := List.prefix_refl _
  scopes := fun known => ⟨_, Nat.le_refl _, known⟩
  noScopes := id
  functions := rfl
  names := List.prefix_refl _
  log := List.prefix_refl _

theorem device_count (grows : Grows before after) :
    before.devices.size ≤ after.devices.size := by
  simpa using grows.devices.length_le

theorem trans (first : Grows before after) (second : Grows after later) :
    Grows before later where
  nets := by
    intro id net known
    obtain ⟨added, found, newer⟩ := first.nets known
    obtain ⟨more, foundLater, newest⟩ := second.nets found
    refine ⟨added ++ more, by simpa only [Array.append_assoc] using foundLater, ?_⟩
    intro endpoint member
    rcases Array.mem_append.mp member with old | new
    · exact newer endpoint old
    · exact Nat.le_trans first.device_count (newest endpoint new)
  newNets := by
    intro id net absent known
    cases middle : after.net? id with
    | none => exact second.newNets middle known
    | some net' =>
      obtain ⟨added, found, _⟩ := second.nets middle
      obtain rfl := Option.some.inj (known.symm.trans found)
      have new := first.newNets absent middle
      exact new
  devices := first.devices.trans second.devices
  scopes := by
    intro id scope known
    obtain ⟨counter, le, found⟩ := first.scopes known
    obtain ⟨counter', le', found'⟩ := second.scopes found
    exact ⟨counter', Nat.le_trans le le', found'⟩
  noScopes := fun absent => second.noScopes (first.noScopes absent)
  functions := second.functions.trans first.functions
  names := first.names.trans second.names
  log := first.log.trans second.log

theorem net_count (grows : Grows before after) : before.nets.size ≤ after.nets.size := by
  refine net_count_le fun id net known => ?_
  obtain ⟨added, found, _⟩ := grows.nets known
  exact ⟨_, found⟩

/-- What a net says about itself outlives every step. -/
theorem net (grows : Grows before after) {id : NetId} {found : Net}
    (known : before.net? id = some found) : ∃ found', after.net? id = some found' ∧
      found'.toValueType = found.toValueType ∧ found'.scope = found.scope ∧
        found'.memory = found.memory := by
  obtain ⟨added, later, _⟩ := grows.nets known
  exact ⟨_, later, rfl, rfl, rfl⟩

theorem device (grows : Grows before after) {id : DeviceId} {device : Device}
    (known : before.device? id = some device) : after.device? id = some device := by
  obtain ⟨added, same⟩ := grows.devices
  have stored : before.devices.toList[id.index]? = some device := by
    simpa [Design.device?] using known
  have found : after.devices.toList[id.index]? = some device := by
    rw [← same, List.getElem?_append_left (List.getElem?_eq_some_iff.mp stored).1, stored]
  simpa [Design.device?] using found

theorem function (grows : Grows before after) (id : FunctionId) :
    after.function? id = before.function? id := by
  rw [function?, grows.functions, function?]

theorem text? (grows : Grows before after) {name : Name} {text : String}
    (known : before.names.text? name = some text) : after.names.text? name = some text :=
  NameTable.Extends.text? grows.names known

theorem scope (grows : Grows before after) {id : ScopeId}
    (known : (before.scope? id).isSome) : (after.scope? id).isSome := by
  obtain ⟨scope, found⟩ := Option.isSome_iff_exists.mp known
  obtain ⟨counter, _, later⟩ := grows.scopes found
  simp [later]

end Grows

variable (design : Design)

theorem intern_grows (names : NameTable) (text : String) :
    names.texts.toList <+: (names.intern text).2.texts.toList := by
  rw [NameTable.intern]
  split
  · exact List.prefix_refl _
  · simp

theorem grows_nameLocal (scope : ScopeId) (counter : Nat) :
    Grows design (design.nameLocal scope counter).2 where
  nets := fun known => ⟨#[], by simpa using known, by simp⟩
  newNets := fun absent known => by simp [absent] at known
  devices := List.prefix_refl _
  scopes := by
    intro id found known
    rw [scope?_nameLocal, known]
    by_cases same : id = scope
    · exact ⟨found.nextLocal + 1, Nat.le_succ _, by simp [same]⟩
    · exact ⟨found.nextLocal, Nat.le_refl _, by simp [same]⟩
  noScopes := fun absent => by rw [scope?_nameLocal, absent, Option.map_none]
  functions := rfl
  names := intern_grows _ _
  log := List.prefix_refl _

theorem net?_lt {id : NetId} {net : Net} (known : design.net? id = some net) :
    id.index < design.nets.size := (Array.getElem?_eq_some_iff.mp known).1

theorem grows_pushNet (scope : ScopeId) (name : Name) (type : ValueType) (span : Span) :
    Grows design (design.pushNet scope name .implicit type true span).2 where
  nets := by
    intro id net known
    have inside := design.net?_lt known
    refine ⟨#[], ?_, by simp⟩
    rw [net?_pushNet, if_neg (by omega), known, Array.append_empty]
  newNets := by
    intro id net absent known
    rw [net?_pushNet] at known
    split at known
    · cases known
      exact ⟨rfl, rfl, rfl⟩
    · simp [absent] at known
  devices := List.prefix_refl _
  scopes := fun known => ⟨_, Nat.le_refl _, known⟩
  noScopes := id
  functions := rfl
  names := List.prefix_refl _
  log := List.prefix_refl _

theorem grows_pushDevice (scope : ScopeId) (name : Name) (kind : DeviceKind)
    (connections : List Connection) (span : Span) :
    Grows design (design.pushDevice scope name kind connections span).2 where
  nets := by
    intro id net known
    refine ⟨_, by rw [net?_pushDevice, known, Option.map_some], ?_⟩
    intro endpoint member
    obtain ⟨connection, _, rfl⟩ := List.mem_map.mp (List.mem_toArray.mp member)
    exact Nat.le_refl _
  newNets := by
    intro id net absent known
    simp [net?_pushDevice, absent] at known
  devices := by simp [pushDevice]
  scopes := fun known => ⟨_, Nat.le_refl _, known⟩
  noScopes := id
  functions := rfl
  names := List.prefix_refl _
  log := List.prefix_refl _

/-- The devices that were made since, in the order of their creation. -/
def newDevices (before after : Design) : List Device :=
  after.devices.toList.drop before.devices.size

theorem newDevices_self : newDevices design design = [] := by simp [newDevices]

theorem newDevices_grows {before mid after : Design} (grown : Grows mid after) :
    newDevices before mid <+: newDevices before after := by
  obtain ⟨added, same⟩ := grown.devices
  rw [newDevices, newDevices, ← same, List.drop_append]
  exact List.prefix_append _ _

theorem newDevices_append {before mid after : Design} (grown : before.Grows mid)
    (more : mid.Grows after) :
    before.newDevices after = before.newDevices mid ++ mid.newDevices after := by
  obtain ⟨added, same⟩ := more.devices
  have count := grown.device_count
  rw [newDevices, newDevices, newDevices, ← same, List.drop_append_of_le_length (by simpa),
    ← mid.devices.length_toList, List.drop_left]

theorem newDevices_pushDevice {before : Design} (grown : Grows before design) (scope : ScopeId)
    (name : Name) (kind : DeviceKind) (connections : List Connection) (span : Span) :
    newDevices before (design.pushDevice scope name kind connections span).2 =
      newDevices before design ++
        [⟨⟨design.devices.size⟩, name, scope, kind, kind.connect connections, span⟩] := by
  rw [newDevices, pushDevice, Array.toList_push,
    List.drop_append_of_le_length (by simpa using grown.device_count)]
  rfl

/-- A net for an intermediate value, with the name that it takes. -/
theorem grows_localNet (scope : ScopeId) (counter : Nat) (type : ValueType) (span : Span) :
    let named := design.nameLocal scope counter
    Grows design (named.2.pushNet scope named.1 .implicit type true span).2 :=
  (design.grows_nameLocal scope counter).trans (grows_pushNet _ scope _ type span)

theorem grows_localDevice (scope : ScopeId) (counter : Nat) (kind : DeviceKind)
    (connections : List Connection) (span : Span) :
    let named := design.nameLocal scope counter
    Grows design (named.2.pushDevice scope named.1 kind connections span).2 :=
  (design.grows_nameLocal scope counter).trans (grows_pushDevice _ scope _ kind connections span)

theorem grows_report (diagnostic : Diagnostic) :
    Grows design { design with log := design.log.report diagnostic } where
  nets := (Grows.refl design).nets
  newNets := (Grows.refl design).newNets
  devices := List.prefix_refl _
  scopes := (Grows.refl design).scopes
  noScopes := id
  functions := rfl
  names := List.prefix_refl _
  log := by simp [DiagnosticLog.report]

end NetSynth.Design
