import NetSynth.Proofs.Runs

/-! The exact effect of the steps that add to a design: which designs they accept, and what a look-up
finds afterwards. -/
namespace NetSynth

theorem ValueType.accepted {type : ValueType} (scalar : type.domain = .real → type.width = 1) :
    ¬(type.domain.isReal && type.width != 1) = true := by
  intro wide
  simp only [Domain.isReal, Bool.and_eq_true, beq_iff_eq, bne_iff_ne] at wide
  exact wide.2 (scalar wide.1)

namespace Design

variable {design : Design} {scope : ScopeId} {name : Name} {counter : Nat}

@[simp] theorem nameLocal_net? (id : NetId) :
    (design.nameLocal scope counter).2.net? id = design.net? id := rfl

theorem scope?_nameLocal (id : ScopeId) : (design.nameLocal scope counter).2.scope? id =
    (design.scope? id).map fun found =>
      if id = scope then { found with nextLocal := found.nextLocal + 1 } else found := by
  change (design.scopes.modify scope.index _)[id.index]? = design.scopes[id.index]?.map _
  rw [Array.getElem?_modify]
  by_cases same : id = scope
  · simp [same]
  · have other : scope.index ≠ id.index := fun h => same (by cases id; cases scope; simp_all)
    simp [same, other]

theorem net?_pushNet (scope : ScopeId) (name : Name) (origin : NetOrigin) (type : ValueType)
    (isLocal : Bool) (span : Span) (id : NetId) :
    (design.pushNet scope name origin type isLocal span).2.net? id =
      if id.index = design.nets.size then
        some { type with id, name, scope, origin, isLocal, endpoints := #[], memory := none, span }
      else design.net? id := by
  change (design.nets.push _)[id.index]? = _
  rw [Array.getElem?_push]
  by_cases last : id.index = design.nets.size
  · rw [if_pos last, if_pos last, ← last]
  · rw [if_neg last, if_neg last]
    rfl

/-- The pins of a device that a net shows, in their order. -/
def pinsOn (device : DeviceId) (connections : List Connection) (net : NetId) : List Endpoint :=
  (connections.filter (·.ref.net == net)).map fun connection => ⟨device, connection.pin⟩

theorem foldl_attach_getElem? (device : DeviceId) (connections : List Connection)
    (nets : Array Net) (id : NetId) : (connections.foldl (attach device) nets)[id.index]? =
      nets[id.index]?.map fun net =>
        { net with endpoints := net.endpoints ++ (pinsOn device connections id).toArray } := by
  induction connections generalizing nets with
  | nil => simp [pinsOn]
  | cons connection rest ih =>
    rw [List.foldl_cons, ih, attach, Array.getElem?_modify]
    by_cases same : connection.ref.net = id
    · cases nets[id.index]? <;> simp [pinsOn, same]
    · have other : connection.ref.net.index ≠ id.index := fun h =>
        same (by cases id; cases hr : connection.ref.net; simp_all)
      simp [pinsOn, same, other]

/-- A new device leaves on each net its own pins and nothing else. -/
theorem net?_pushDevice (scope : ScopeId) (name : Name) (kind : DeviceKind)
    (connections : List Connection) (span : Span) (id : NetId) :
    (design.pushDevice scope name kind connections span).2.net? id =
      (design.net? id).map fun net => { net with endpoints :=
        net.endpoints ++ (pinsOn ⟨design.devices.size⟩ connections id).toArray } :=
  foldl_attach_getElem? _ _ _ _

/-- The design has the function under a name of its own, if it has the function at all. -/
def NamesFunction (design : Design) (id : FunctionId) : Prop :=
  ∀ signature, design.function? id = some signature →
    (design.names.text? signature.result.name).isSome

end Design

namespace Build

variable {design : Design} {done : NetId → Design → Prop} {stopped : Design → Prop}

theorem ends_localName {done : Name → Design → Prop} (scope : ScopeId) :
    Ends (localName scope) design done stopped ↔
      match design.scope? scope with
      | none => stopped design
      | some found => done (design.nameLocal scope found.nextLocal).1
          (design.nameLocal scope found.nextLocal).2 := by
  simp only [localName, ends_bind, ends_get]
  cases design.scope? scope <;> rfl

theorem ends_addNet (scope : ScopeId) (name : Name) (origin : NetOrigin) (type : ValueType)
    (isLocal : Bool) (span : Span) :
    Ends (addNet scope name origin type isLocal span) design done stopped ↔
      if type.domain.isReal && type.width != 1 then stopped design
      else done ⟨design.nets.size⟩ (design.pushNet scope name origin type isLocal span).2 := by
  simp only [addNet]
  split
  · cases named : design.names.text? name <;> simp [ends_nameText, named]
  · exact Iff.rfl

theorem ends_addLocal (scope : ScopeId) (type : ValueType) (span : Span) :
    Ends (addLocal scope type span) design done stopped ↔
      match design.scope? scope with
      | none => stopped design
      | some found =>
          let named := design.nameLocal scope found.nextLocal
          if type.domain.isReal && type.width != 1 then stopped named.2
          else done ⟨design.nets.size⟩
            (named.2.pushNet scope named.1 .implicit type true span).2 := by
  simp only [addLocal, ends_bind, ends_localName, ends_addNet]
  cases design.scope? scope <;> rfl

/-- A device needs connections that the check accepts and a scope that exists. -/
theorem ends_addDevice {done : DeviceId → Design → Prop} (scope : ScopeId) (kind : DeviceKind)
    (connections : List Connection) (span : Span) :
    Ends (addDevice scope kind connections span) design done stopped ↔
      match design.check kind connections, design.scope? scope with
      | .ok (), some found =>
          let named := design.nameLocal scope found.nextLocal
          done ⟨design.devices.size⟩
            (named.2.pushDevice scope named.1 kind connections span).2
      | _, _ => stopped design := by
  simp only [addDevice, ends_bind, ends_get, ends_ensure, ends_localName]
  cases design.check kind connections <;> cases design.scope? scope <;> rfl

theorem ends_functionOf {done : FunctionSignature × String → Design → Prop}
    (function : FunctionId) : Ends (Rule.functionOf function) design done stopped ↔
      match design.function? function with
      | none => stopped design
      | some signature =>
          match design.names.text? signature.result.name with
          | none => stopped design
          | some name => done (signature, name) design := by
  simp only [Rule.functionOf, ends_bind, ends_get]
  cases design.function? function with
  | none => rfl
  | some signature =>
    simp only [ends_bind, ends_nameText]
    cases design.names.text? signature.result.name <;> simp

theorem runOn_functionOf {function : FunctionId} {signature : FunctionSignature} {name : String}
    (known : design.function? function = some signature)
    (named : design.names.text? signature.result.name = some name) :
    (Rule.functionOf function).runOn design = (.ok (signature, name), design) := by
  have ends : (Rule.functionOf function).Ends design
      (fun result after => result = (signature, name) ∧ after = design) fun _ => False := by
    simp [ends_functionOf, known, named]
  obtain ⟨_, _, ran, rfl, rfl⟩ := ends.succeeds
  exact ran

end Build
end NetSynth
