import Mathlib.Logic.Relation
import NetSynth.Proofs.Contract

/-! The changes that requests make to a design, one at a time, and the invariant that each of them
keeps. -/
namespace NetSynth

/-- Every pin has the direction stored that the kind gives it. -/
def Device.Directed (device : Device) : Prop :=
  ∀ pin ∈ device.pins, pin.direction = device.kind.direction pin.pin

theorem DeviceKind.directed_connect (id : DeviceId) (name : Name) (scope : ScopeId)
    (kind : DeviceKind) (connections : List Connection) (span : Span) :
    Device.Directed ⟨id, name, scope, kind, kind.connect connections, span⟩ := by
  intro pin member
  obtain ⟨connection, _, rfl⟩ := List.mem_map.mp member
  rfl

namespace Design

/-- The words of a memory are nets of its own type and scope, one for each of its indexes. -/
structure WordsOf (design : Design) (memory : Net) (words : MemoryWords) : Prop where
  domain : memory.domain = .logic
  count : words.words.size = (words.last - words.first).natAbs + 1
  nets : ∀ id ∈ words.words, ∃ net, design.net? id = some net ∧
    net.toValueType = memory.toValueType ∧ net.scope = memory.scope

/-- One change to a design. A device needs connections that the check accepts, a real net needs
width 1, and a net becomes a memory after its words are made, each for itself. -/
inductive Step (design : Design) : Design → Prop
  | intern (text : String) : Step design (design.intern text).2
  | report (diagnostic : Diagnostic) :
      Step design { design with log := design.log.report diagnostic }
  | takeReports : Step design { design with log := design.log.take.2 }
  | scope (name : Name) (parent : ScopeId) : Step design (design.pushScope name parent).2
  | function (scope : ScopeId) (result : Port) (ports : List Port) :
      Step design (design.pushFunction scope result ports).2
  | nameLocal (scope : ScopeId) (counter : Nat) : Step design (design.nameLocal scope counter).2
  | net (scope : ScopeId) (name : Name) (origin : NetOrigin) (type : ValueType) (isLocal : Bool)
      (span : Span) (scalar : type.domain = .real → type.width = 1) :
      Step design (design.pushNet scope name origin type isLocal span).2
  | memory (id : NetId) (words : MemoryWords)
      (described : ∀ net, design.net? id = some net → design.WordsOf net words)
      (distinct : words.words.toList.Nodup) : Step design (design.nameMemory id words)
  | device (scope : ScopeId) (name : Name) (kind : DeviceKind) (connections : List Connection)
      (span : Span) (accepted : design.check kind connections = .ok ()) :
      Step design (design.pushDevice scope name kind connections span).2

/-- Any number of changes. -/
abbrev Steps : Design → Design → Prop := Relation.ReflTransGen Step

variable {before after : Design}

theorem net?_nameMemory (design : Design) (memory : NetId) (words : MemoryWords) (id : NetId) :
    (design.nameMemory memory words).net? id =
      (design.net? id).map fun net =>
        if id = memory then { net with memory := some words } else net := by
  change (design.nets.modify memory.index _)[id.index]? = design.nets[id.index]?.map _
  rw [Array.getElem?_modify]
  by_cases same : id = memory
  · simp [same]
  · have other : memory.index ≠ id.index := fun h => same (by cases id; cases memory; simp_all)
    simp [same, other]

theorem device?_pushDevice (design : Design) (scope : ScopeId) (name : Name) (kind : DeviceKind)
    (connections : List Connection) (span : Span) (id : DeviceId) :
    (design.pushDevice scope name kind connections span).2.device? id =
      if id.index = design.devices.size then
        some ⟨id, name, scope, kind, kind.connect connections, span⟩
      else design.device? id := by
  change (design.devices.push _)[id.index]? = _
  rw [Array.getElem?_push]
  by_cases last : id.index = design.devices.size
  · rw [if_pos last, if_pos last, ← last]
  · rw [if_neg last, if_neg last]
    rfl

theorem Step.keepsTypes (step : Step before after) : before.KeepsTypes after := by
  intro id net known
  cases step with
  | net scope name origin type isLocal span scalar =>
    have inside := before.net?_lt known
    exact ⟨net, by rw [net?_pushNet, if_neg (by omega), known], rfl, rfl⟩
  | memory memory words described distinct =>
    rw [net?_nameMemory, known]
    refine ⟨_, rfl, ?_, ?_⟩ <;> split <;> rfl
  | device scope name kind connections span accepted =>
    rw [net?_pushDevice, known]
    exact ⟨_, rfl, rfl, rfl⟩
  | _ => exact ⟨net, known, rfl, rfl⟩

theorem Step.net_origin (step : Step before after) {id : NetId} {net : Net}
    (known : after.net? id = some net) :
    (∃ old, before.net? id = some old ∧ net.id = old.id ∧ net.toValueType = old.toValueType ∧
      net.scope = old.scope ∧
      (net.memory = old.memory ∨ ∃ words, net.memory = some words ∧ before.WordsOf old words ∧
        words.words.toList.Nodup)) ∨
    (net.id = id ∧ (net.domain = .real → net.width = 1) ∧ net.memory = none) := by
  cases step with
  | net scope name origin type isLocal span scalar =>
    rw [net?_pushNet] at known
    split at known
    · cases known
      exact .inr ⟨rfl, scalar, rfl⟩
    · exact .inl ⟨net, known, rfl, rfl, rfl, .inl rfl⟩
  | memory memory words described distinct =>
    rw [net?_nameMemory, Option.map_eq_some_iff] at known
    obtain ⟨old, found, rfl⟩ := known
    refine .inl ⟨old, found, ?_⟩
    split
    · rename_i same
      exact ⟨rfl, rfl, rfl, .inr ⟨words, rfl, described old (same ▸ found), distinct⟩⟩
    · exact ⟨rfl, rfl, rfl, .inl rfl⟩
  | device scope name kind connections span accepted =>
    rw [net?_pushDevice, Option.map_eq_some_iff] at known
    obtain ⟨old, found, rfl⟩ := known
    exact .inl ⟨old, found, rfl, rfl, rfl, .inl rfl⟩
  | _ => exact .inl ⟨net, known, rfl, rfl, rfl, .inl rfl⟩

theorem Step.device_origin (step : Step before after) {id : DeviceId} {device : Device}
    (known : after.device? id = some device) : before.device? id = some device ∨
      (device.id = id ∧ before.Keeps device.kind device.connections ∧ device.Directed) := by
  cases step with
  | device scope name kind connections span accepted =>
    rw [device?_pushDevice] at known
    split at known
    · cases known
      have kept := check_eq_ok_iff.mp accepted
      exact .inr ⟨rfl, by simpa using kept, kind.directed_connect _ _ _ _ _⟩
    · exact .inl known
  | _ => exact .inl known

theorem Step.scope_origin (step : Step before after) {id : ScopeId} {scope : Scope}
    (known : after.scope? id = some scope) :
    (∃ old, before.scope? id = some old ∧ scope.id = old.id) ∨ scope.id = id := by
  cases step with
  | scope name parent =>
    change (before.scopes.push _)[id.index]? = some scope at known
    rw [Array.getElem?_push] at known
    split at known
    · rename_i last
      cases known
      exact .inr (by cases id; simp_all)
    · exact .inl ⟨scope, known, rfl⟩
  | nameLocal named counter =>
    rw [scope?_nameLocal, Option.map_eq_some_iff] at known
    obtain ⟨old, found, rfl⟩ := known
    refine .inl ⟨old, found, ?_⟩
    split <;> rfl
  | _ => exact .inl ⟨scope, known, rfl⟩

theorem Step.function_origin (step : Step before after) {id : FunctionId}
    {signature : FunctionSignature} (known : after.function? id = some signature) :
    before.function? id = some signature ∨ signature.id = id := by
  cases step with
  | function scope result ports =>
    change (before.functions.push _)[id.index]? = some signature at known
    rw [Array.getElem?_push] at known
    split at known
    · rename_i last
      cases known
      exact .inr (by cases id; simp_all)
    · exact .inl known
  | _ => exact .inl known

/-- A scope that exists is never removed. -/
theorem Step.scope_stays (step : Step before after) {id : ScopeId}
    (known : (before.scope? id).isSome) : (after.scope? id).isSome := by
  cases step with
  | scope name parent =>
    obtain ⟨scope, found⟩ := Option.isSome_iff_exists.mp known
    have inside := (Array.getElem?_eq_some_iff.mp found).1
    change ((before.scopes.push _)[id.index]?).isSome
    rw [Array.getElem?_push, if_neg (by omega)]
    exact known
  | nameLocal named counter => rwa [scope?_nameLocal, Option.isSome_map]
  | _ => exact known

theorem Step.function_stays (step : Step before after) {id : FunctionId}
    {signature : FunctionSignature} (known : before.function? id = some signature) :
    after.function? id = some signature := by
  cases step with
  | function scope result ports =>
    have inside := (Array.getElem?_eq_some_iff.mp known).1
    change (before.functions.push _)[id.index]? = some signature
    rw [Array.getElem?_push, if_neg (by omega)]
    exact known
  | _ => exact known

/-- Devices keep the contract of their kinds, with the directions that their kinds give to the pins,
real nets are one bit wide, memories have their words, objects carry the number that they are stored
under, and there is a root scope. -/
structure WellFormed (design : Design) : Prop where
  contract : ∀ {id device}, design.device? id = some device →
    design.Keeps device.kind device.connections
  directions : ∀ {id device}, design.device? id = some device →
    device.pins.map (fun pin => (pin.pin, pin.direction)) =
      device.kind.pins.map fun pin => (pin, device.kind.direction pin)
  scalar : ∀ {id net}, design.net? id = some net → net.domain = .real → net.width = 1
  words : ∀ {id net words}, design.net? id = some net → net.memory = some words →
    design.WordsOf net words
  netId : ∀ {id net}, design.net? id = some net → net.id = id
  deviceId : ∀ {id device}, design.device? id = some device → device.id = id
  scopeId : ∀ {id scope}, design.scope? id = some scope → scope.id = id
  functionId : ∀ {id signature}, design.function? id = some signature → signature.id = id
  root : (design.scope? .root).isSome

theorem wellFormed_empty (rootName : String) : (empty rootName).WellFormed where
  contract := fun known => by simp [empty, device?] at known
  directions := fun known => by simp [empty, device?] at known
  scalar := fun known => by simp [empty, net?] at known
  words := fun known => by simp [empty, net?] at known
  netId := fun known => by simp [empty, net?] at known
  deviceId := fun known => by simp [empty, device?] at known
  scopeId := by
    intro id scope known
    obtain ⟨inside, rfl⟩ := Array.getElem?_eq_some_iff.mp known
    have first : id.index = 0 := by simpa [empty] using inside
    cases id
    simp_all [empty, ScopeId.root]
  functionId := fun known => by simp [empty, function?] at known
  root := rfl

theorem Keeps.directions {design : Design} {device : Device}
    (kept : design.Keeps device.kind device.connections) (directed : device.Directed) :
    device.pins.map (fun pin => (pin.pin, pin.direction)) =
      device.kind.pins.map fun pin => (pin, device.kind.direction pin) := by
  rw [← kept.pins, Device.connections, List.map_map, List.map_map]
  exact List.map_congr_left fun pin member => congrArg (Prod.mk pin.pin) (directed pin member)

theorem WellFormed.directed {design : Design} (valid : design.WellFormed) {id : DeviceId}
    {device : Device} (known : design.device? id = some device) : device.Directed := by
  intro pin member
  have listed := List.mem_map_of_mem (f := fun pin : Pin => (pin.pin, pin.direction)) member
  rw [valid.directions known] at listed
  obtain ⟨name, _, same⟩ := List.mem_map.mp listed
  obtain ⟨rfl, direction⟩ := Prod.mk.inj same
  exact direction.symm

theorem WordsOf.later {memory net : Net} {words : MemoryWords}
    (described : before.WordsOf memory words)
    (types : before.KeepsTypes after) (type : net.toValueType = memory.toValueType)
    (scope : net.scope = memory.scope) : after.WordsOf net words where
  domain := (congrArg ValueType.domain type).trans described.domain
  count := described.count
  nets := by
    intro id member
    obtain ⟨word, known, sameType, sameScope⟩ := described.nets id member
    obtain ⟨word', known', type', scope'⟩ := types known
    exact ⟨word', known', type'.trans (sameType.trans type.symm),
      scope'.trans (sameScope.trans scope.symm)⟩

/-- Every change keeps a design well formed. -/
theorem Step.wellFormed (step : Step before after) (valid : before.WellFormed) :
    after.WellFormed := by
  have contract : ∀ {id device}, after.device? id = some device →
      after.Keeps device.kind device.connections ∧ device.Directed := by
    intro id device known
    rcases step.device_origin known with old | ⟨_, kept, directed⟩
    · exact ⟨(valid.contract old).later step.keepsTypes, valid.directed old⟩
    · exact ⟨kept.later step.keepsTypes, directed⟩
  refine ⟨fun known => (contract known).1, fun known => (contract known).1.directions
    (contract known).2, ?_, ?_, ?_, ?_, ?_, ?_, ?_⟩
  · intro id net known
    rcases step.net_origin known with ⟨old, found, _, type, _⟩ | ⟨_, scalar, _⟩
    · rw [type]
      exact valid.scalar found
    · exact scalar
  · intro id net words known named
    rcases step.net_origin known with ⟨old, found, _, type, scope, memory⟩ | ⟨_, _, none⟩
    · rcases memory with same | ⟨words', new, described, _⟩
      · exact (valid.words found (same ▸ named)).later step.keepsTypes type scope
      · obtain rfl := Option.some.inj (named.symm.trans new)
        exact described.later step.keepsTypes type scope
    · simp [none] at named
  · intro id net known
    rcases step.net_origin known with ⟨old, found, same, _⟩ | ⟨same, _⟩
    · exact same.trans (valid.netId found)
    · exact same
  · intro id device known
    rcases step.device_origin known with old | ⟨same, _⟩
    · exact valid.deviceId old
    · exact same
  · intro id scope known
    rcases step.scope_origin known with ⟨old, found, same⟩ | same
    · exact same.trans (valid.scopeId found)
    · exact same
  · intro id signature known
    rcases step.function_origin known with old | same
    · exact valid.functionId old
    · exact same
  · exact step.scope_stays valid.root

theorem Steps.keepsTypes (steps : Steps before after) : before.KeepsTypes after := by
  induction steps with
  | refl => exact fun _ net known => ⟨net, known, rfl, rfl⟩
  | tail _ step ih => exact ih.trans step.keepsTypes

theorem Steps.function_stays (steps : Steps before after) {id : FunctionId}
    {signature : FunctionSignature} (known : before.function? id = some signature) :
    after.function? id = some signature := by
  induction steps with
  | refl => exact known
  | tail _ step ih => exact step.function_stays ih

theorem Steps.net_count (steps : Steps before after) : before.nets.size ≤ after.nets.size := by
  refine net_count_le fun id net known => ?_
  obtain ⟨net', found, _⟩ := steps.keepsTypes known
  exact ⟨net', found⟩

/-- No memory names a net twice. -/
def DistinctWords (design : Design) : Prop :=
  ∀ {id net words}, design.net? id = some net → net.memory = some words →
    words.words.toList.Nodup

theorem Steps.distinctWords (steps : Steps before after) (distinct : before.DistinctWords) :
    after.DistinctWords := by
  induction steps with
  | refl => exact distinct
  | tail _ step ih =>
    intro id net words known named
    rcases step.net_origin known with ⟨old, found, _, _, _, memory⟩ | ⟨_, _, none⟩
    · rcases memory with same | ⟨words', new, _, nodup⟩
      · exact ih found (same ▸ named)
      · obtain rfl := Option.some.inj (named.symm.trans new)
        exact nodup
    · simp [none] at named

/-- A device is checked before its name is taken, and the name changes nothing that was checked. -/
theorem Steps.device {design : Design} (scope : ScopeId) (span : Span) (counter : Nat)
    {kind : DeviceKind} {connections : List Connection}
    (accepted : design.check kind connections = .ok ()) :
    let named := design.nameLocal scope counter
    design.Steps (named.2.pushDevice scope named.1 kind connections span).2 := by
  have step : design.Step (design.nameLocal scope counter).2 := .nameLocal scope counter
  have kept := (check_eq_ok_iff.mp accepted).later step.keepsTypes
  exact Relation.ReflTransGen.head step (.single (.device _ _ _ _ _ (check_eq_ok_iff.mpr kept)))

theorem Steps.wellFormed (steps : Steps before after) (valid : before.WellFormed) :
    after.WellFormed := by
  induction steps with
  | refl => exact valid
  | tail _ step ih => exact step.wellFormed ih

end Design
end NetSynth
