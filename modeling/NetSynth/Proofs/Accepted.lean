import NetSynth.Proofs.Contract
import NetSynth.Synthesis.Composites

/-! Connections that each kind of device accepts, for nets of fitting widths and domains. -/
namespace NetSynth.Design

variable {design : Design}

/-- The reference names something of this width and domain. -/
structure Sees (design : Design) (ref : NetRef) (width : Nat) (domain : Domain) : Prop where
  resolves : design.Resolves ref
  width : design.shownWidth ref = width
  domain : design.shownDomain ref = domain

theorem Sees.refWidth {ref : NetRef} {width : Nat} {domain : Domain}
    (sees : design.Sees ref width domain) : design.refWidth ref = .ok width :=
  refWidth_eq_iff.mpr ⟨sees.resolves, sees.width⟩

theorem Sees.grows {before after : Design} {ref : NetRef} {width : Nat} {domain : Domain}
    (sees : before.Sees ref width domain) (grown : before.Grows after) :
    after.Sees ref width domain := by
  obtain ⟨resolves, sameWidth, sameDomain⟩ := grown.keepsTypes.resolves sees.resolves
  exact ⟨resolves, sameWidth.trans sees.width, sameDomain.trans sees.domain⟩

theorem sees_whole {id : NetId} {net : Net} (known : design.net? id = some net) :
    design.Sees id net.width net.domain := by
  have inside : ∀ id' index, NetRef.whole id = .bit id' index → index < net.width := by simp
  have width : design.shownWidth id = NetRef.widthOn net id := shownWidth_of known inside
  have domain : design.shownDomain id = net.domain := shownDomain_of known
  exact ⟨⟨net, known, inside⟩, width, domain⟩

theorem sees_bit {id : NetId} {net : Net} (known : design.net? id = some net) {index : Nat}
    (inside : index < net.width) : design.Sees (.bit id index) 1 net.domain := by
  have inside' : ∀ id' index', NetRef.bit id index = .bit id' index' → index' < net.width := by
    rintro _ _ same
    cases same
    exact inside
  have width : design.shownWidth (.bit id index) = NetRef.widthOn net (.bit id index) :=
    shownWidth_of known inside'
  have domain : design.shownDomain (.bit id index) = net.domain := shownDomain_of known
  exact ⟨⟨net, known, inside'⟩, width, domain⟩

/-- A connection sees what the kind asks of its pin. The pins that have to agree see the shared
domain. -/
def Fits (design : Design) (kind : DeviceKind) (shared : Domain) (connection : Connection) : Prop :=
  ∃ width domain, design.Sees connection.ref width domain ∧
    (∀ asked, kind.pinWidth? connection.pin = some asked → width = asked) ∧
    (kind.isLogicOnly = true → domain ≠ .real) ∧
    (connection.pin ∈ kind.domainPins → domain = shared)

section Fitting

variable {kind : DeviceKind} {pin : PinName} {ref : NetRef} {width : Nat} {domain shared : Domain}
  {connections : List Connection}

theorem Sees.fits (sees : design.Sees ref width domain) (asked : kind.pinWidth? pin = some width)
    (vector : kind.isLogicOnly = true → domain ≠ .real)
    (agrees : pin ∈ kind.domainPins → domain = shared) : design.Fits kind shared ⟨pin, ref⟩ :=
  ⟨width, domain, sees, fun _ same => Option.some.inj (asked.symm.trans same), vector, agrees⟩

/-- The common case, where no pins have to agree. -/
theorem Sees.fitsFreely (sees : design.Sees ref width domain)
    (asked : kind.pinWidth? pin = some width) (free : kind.domainPins = [])
    (vector : kind.isLogicOnly = true → domain ≠ .real) : design.Fits kind shared ⟨pin, ref⟩ :=
  sees.fits asked vector fun listed => by simp [free] at listed

theorem keeps_of_fits (pins : connections.map Connection.pin = kind.pins)
    (fits : ∀ connection ∈ connections, design.Fits kind shared connection)
    (sum : ∀ width inputs, kind = .concat width inputs →
      ((connections.filter (·.pin.isInput)).map (design.shownWidth ·.ref)).sum = width) :
    design.Keeps kind connections where
  pins := pins
  refs := by
    intro connection listed
    obtain ⟨_, _, sees, _⟩ := fits connection listed
    exact sees.resolves
  widths := by
    intro connection listed asked found
    obtain ⟨_, _, sees, width, _⟩ := fits connection listed
    exact width asked found ▸ sees.refWidth
  vectors := by
    intro logic connection listed
    obtain ⟨_, _, sees, _, vector, _⟩ := fits connection listed
    exact sees.domain ▸ vector logic
  sum := sum
  domains := by
    refine ⟨shared, fun connection listed agree => ?_⟩
    obtain ⟨_, _, sees, _, _, agrees⟩ := fits connection listed
    exact sees.domain.trans (agrees agree)

end Fitting

variable {a b out : NetRef} {width widthA widthB : Nat} {domain domainA domainB : Domain}

theorem keeps_addSub (op : Direction) (onA : design.Sees a width domain)
    (onB : design.Sees b width domain) (onOut : design.Sees out width domain) :
    design.Keeps (.addSub op width) [⟨.dataA, a⟩, ⟨.dataB, b⟩, ⟨.result, out⟩] := by
  refine @keeps_of_fits _ _ domain _ rfl ?_ nofun
  refine List.forall_mem_cons.mpr ⟨onA.fits rfl nofun fun _ => rfl, ?_⟩
  refine List.forall_mem_cons.mpr ⟨onB.fits rfl nofun fun _ => rfl, ?_⟩
  exact List.forall_mem_singleton.mpr (onOut.fits rfl nofun fun _ => rfl)

theorem keeps_arithmetic (op : Arithmetic) (signed : Bool) {domainOut : Domain}
    (onA : design.Sees a widthA domain) (onB : design.Sees b widthB domain)
    (onOut : design.Sees out width domainOut) :
    design.Keeps (.arithmetic op width widthA widthB signed)
      [⟨.dataA, a⟩, ⟨.dataB, b⟩, ⟨.result, out⟩] := by
  refine @keeps_of_fits _ _ domain _ rfl ?_ nofun
  refine List.forall_mem_cons.mpr ⟨onA.fits rfl nofun fun _ => rfl, ?_⟩
  refine List.forall_mem_cons.mpr ⟨onB.fits rfl nofun fun _ => rfl, ?_⟩
  exact List.forall_mem_singleton.mpr
    (onOut.fits rfl nofun fun listed => by simp [DeviceKind.domainPins] at listed)

theorem keeps_compare (relation : Relation) (signed : Bool) {domainOut : Domain}
    (onA : design.Sees a width domain) (onB : design.Sees b width domain)
    (onOut : design.Sees out 1 domainOut) :
    design.Keeps (.compare relation width signed)
      [⟨.dataA, a⟩, ⟨.dataB, b⟩, ⟨.related relation, out⟩] := by
  refine @keeps_of_fits _ _ domain _ rfl ?_ nofun
  refine List.forall_mem_cons.mpr ⟨onA.fits rfl nofun fun _ => rfl, ?_⟩
  refine List.forall_mem_cons.mpr ⟨onB.fits rfl nofun fun _ => rfl, ?_⟩
  exact List.forall_mem_singleton.mpr
    (onOut.fits (if_pos rfl) nofun fun listed => by simp [DeviceKind.domainPins] at listed)

theorem keeps_reduce (mode : Reduction) (onA : design.Sees a width domain)
    (onOut : design.Sees out 1 .logic) (vector : domain ≠ .real) :
    design.Keeps (.reduce mode width) [⟨.input 0, a⟩, ⟨.output, out⟩] := by
  refine @keeps_of_fits _ _ .logic _ rfl ?_ nofun
  refine List.forall_mem_cons.mpr ⟨onA.fitsFreely rfl rfl fun _ => vector, ?_⟩
  exact List.forall_mem_singleton.mpr (onOut.fitsFreely rfl rfl nofun)

theorem keeps_signExtend (onA : design.Sees a widthA domain) (onOut : design.Sees out width domain)
    (vector : domain ≠ .real) :
    design.Keeps (.signExtend width widthA) [⟨.input 0, a⟩, ⟨.output, out⟩] := by
  refine @keeps_of_fits _ _ .logic _ rfl ?_ nofun
  refine List.forall_mem_cons.mpr ⟨onA.fitsFreely rfl rfl fun _ => vector, ?_⟩
  exact List.forall_mem_singleton.mpr (onOut.fitsFreely rfl rfl fun _ => vector)

theorem keeps_shift (right signed : Bool) (onA : design.Sees a width domainA)
    (onB : design.Sees b widthB domainB) (onOut : design.Sees out width .logic)
    (vectorA : domainA ≠ .real) (vectorB : domainB ≠ .real) :
    design.Keeps (.shift width widthB right signed)
      [⟨.data 0, a⟩, ⟨.distance, b⟩, ⟨.result, out⟩] := by
  refine @keeps_of_fits _ _ .logic _ rfl ?_ nofun
  refine List.forall_mem_cons.mpr ⟨onA.fitsFreely rfl rfl fun _ => vectorA, ?_⟩
  refine List.forall_mem_cons.mpr ⟨onB.fitsFreely rfl rfl fun _ => vectorB, ?_⟩
  exact List.forall_mem_singleton.mpr (onOut.fitsFreely rfl rfl nofun)

theorem keeps_mux {select : NetRef} (onSelect : design.Sees select 1 domainA)
    (onA : design.Sees a width domain) (onB : design.Sees b width domain)
    (onOut : design.Sees out width domain) :
    design.Keeps (.mux width 2 1)
      [⟨.select, select⟩, ⟨.data 0, a⟩, ⟨.data 1, b⟩, ⟨.result, out⟩] := by
  refine @keeps_of_fits _ _ domain _ rfl ?_ nofun
  refine List.forall_mem_cons.mpr
    ⟨onSelect.fits rfl nofun fun listed => by simp [DeviceKind.domainPins] at listed, ?_⟩
  refine List.forall_mem_cons.mpr ⟨onA.fits rfl nofun fun _ => rfl, ?_⟩
  refine List.forall_mem_cons.mpr ⟨onB.fits rfl nofun fun _ => rfl, ?_⟩
  exact List.forall_mem_singleton.mpr (onOut.fits rfl nofun fun _ => rfl)

theorem keeps_fixedPart (offset : Nat) (onA : design.Sees a widthA domainA)
    (onOut : design.Sees out width domain) :
    design.Keeps (.partSelect width widthA (.fixed offset)) [⟨.vector, a⟩, ⟨.part, out⟩] := by
  refine @keeps_of_fits _ _ domain _ rfl ?_ nofun
  refine List.forall_mem_cons.mpr ⟨onA.fitsFreely rfl rfl nofun, ?_⟩
  exact List.forall_mem_singleton.mpr (onOut.fitsFreely rfl rfl nofun)

theorem keeps_dynamicPart (onA : design.Sees a widthA domainA) (onOut : design.Sees out width domain)
    (onBase : design.Sees b widthB domainB) :
    design.Keeps (.partSelect width widthA (.dynamic widthB))
      [⟨.vector, a⟩, ⟨.part, out⟩, ⟨.base, b⟩] := by
  refine @keeps_of_fits _ _ domain _ rfl ?_ nofun
  refine List.forall_mem_cons.mpr ⟨onA.fitsFreely rfl rfl nofun, ?_⟩
  refine List.forall_mem_cons.mpr ⟨onOut.fitsFreely rfl rfl nofun, ?_⟩
  exact List.forall_mem_singleton.mpr (onBase.fitsFreely rfl rfl nofun)

theorem keeps_memoryRead (memory : NetId) (words : Nat) (onA : design.Sees a widthA domainA)
    (onOut : design.Sees out width domain) :
    design.Keeps (.memoryRead memory words width widthA) [⟨.address, a⟩, ⟨.result, out⟩] := by
  refine @keeps_of_fits _ _ domain _ rfl ?_ nofun
  refine List.forall_mem_cons.mpr ⟨onA.fitsFreely rfl rfl nofun, ?_⟩
  exact List.forall_mem_singleton.mpr (onOut.fitsFreely rfl rfl nofun)

theorem keeps_constant (value : Bits) (onOut : design.Sees out value.width domain) :
    design.Keeps (.constant value) [⟨.output, out⟩] := by
  refine @keeps_of_fits _ _ domain _ rfl ?_ nofun
  exact List.forall_mem_singleton.mpr (onOut.fitsFreely rfl rfl nofun)

theorem keeps_literal (value : Float) (onOut : design.Sees out 1 domain) :
    design.Keeps (.literal value) [⟨.output, out⟩] := by
  refine @keeps_of_fits _ _ domain _ rfl ?_ nofun
  exact List.forall_mem_singleton.mpr (onOut.fitsFreely rfl rfl nofun)

theorem pins_mapIdx {α : Type} (pin : Nat → PinName) (refOf : α → NetRef) (items : List α) :
    (items.mapIdx fun index item => (⟨pin index, refOf item⟩ : Connection)).map Connection.pin =
      (List.range items.length).map pin := by
  apply List.ext_getElem <;> simp

theorem keeps_gate (gate : Gate) {id : NetId} {inputs : List NetRef}
    (onOut : design.Sees id width .logic)
    (each : ∀ ref ∈ inputs, ∃ domain, domain ≠ .real ∧ design.Sees ref width domain) :
    design.Keeps (.logic gate width inputs.length) (Rule.gatePins id inputs) := by
  refine @keeps_of_fits _ _ .logic _ ?_ ?_ nofun
  · rw [Rule.gatePins, List.map_cons, pins_mapIdx .input fun ref => ref]
    rfl
  · intro connection listed
    rcases List.mem_cons.mp listed with rfl | listed
    · exact onOut.fitsFreely rfl rfl nofun
    · obtain ⟨index, inside, rfl⟩ := List.mem_mapIdx.mp listed
      obtain ⟨domain, vector, sees⟩ := each _ (List.getElem_mem inside)
      exact sees.fitsFreely (if_pos inside) rfl fun _ => vector

theorem keeps_not {id : NetId} (onA : design.Sees a width domain)
    (onOut : design.Sees id width .logic) (vector : domain ≠ .real) :
    design.Keeps (.logic .not width 1) [⟨.output, id⟩, ⟨.input 0, a⟩] := by
  have each : ∀ ref ∈ [a], ∃ domain, domain ≠ .real ∧ design.Sees ref width domain := by
    simpa using ⟨domain, vector, onA⟩
  exact keeps_gate .not onOut each

theorem keeps_twoInputs (gate : Gate) {id : NetId} (onA : design.Sees a width domainA)
    (onB : design.Sees b width domainB) (onOut : design.Sees id width .logic)
    (vectorA : domainA ≠ .real) (vectorB : domainB ≠ .real) :
    design.Keeps (.logic gate width 2) [⟨.output, id⟩, ⟨.input 0, a⟩, ⟨.input 1, b⟩] := by
  have each : ∀ ref ∈ [a, b], ∃ domain, domain ≠ .real ∧ design.Sees ref width domain := by
    simpa using ⟨⟨domainA, vectorA, onA⟩, ⟨domainB, vectorB, onB⟩⟩
  exact keeps_gate gate onOut each

/-- The inputs of a concatenation have no width of their own, only a sum. -/
theorem keeps_concat {id : NetId} {inputs : List NetRef} (onOut : design.Sees id width domain)
    (each : ∀ ref ∈ inputs, design.Resolves ref)
    (sum : (inputs.map design.shownWidth).sum = width) :
    design.Keeps (.concat width inputs.length) (Rule.gatePins id inputs) := by
  refine @keeps_of_fits _ _ domain _ ?_ ?_ ?_
  · rw [Rule.gatePins, List.map_cons, pins_mapIdx .input fun ref => ref]
    rfl
  · intro connection listed
    rcases List.mem_cons.mp listed with rfl | listed
    · exact onOut.fitsFreely rfl rfl nofun
    · obtain ⟨index, inside, rfl⟩ := List.mem_mapIdx.mp listed
      exact ⟨_, _, ⟨each _ (List.getElem_mem inside), rfl, rfl⟩, nofun, nofun, nofun⟩
  · intro width' count same
    cases same
    have all : (inputs.mapIdx fun index ref => (⟨.input index, ref⟩ : Connection)).filter
        (·.pin.isInput) = inputs.mapIdx fun index ref => ⟨.input index, ref⟩ := by
      rw [List.filter_eq_self]
      intro connection member
      obtain ⟨index, inside, rfl⟩ := List.mem_mapIdx.mp member
      rfl
    rw [← sum, Rule.gatePins, List.filter_cons_of_neg (by simp [PinName.isInput]), all]
    congr 1
    apply List.ext_getElem <;> simp

theorem keeps_join {id : NetId} (onA : design.Sees a widthA domainA)
    (onB : design.Sees b widthB domainB) (onOut : design.Sees id width domain)
    (sum : widthA + widthB = width) :
    design.Keeps (.concat width 2) [⟨.output, id⟩, ⟨.input 0, a⟩, ⟨.input 1, b⟩] := by
  have each : ∀ ref ∈ [a, b], design.Resolves ref := by simp [onA.resolves, onB.resolves]
  exact keeps_concat onOut each (by simpa [onA.width, onB.width] using sum)

theorem keeps_call (function : FunctionId) {id : NetId} {widths : List Nat} {arguments : List NetId}
    (onOut : design.Sees id width domain) (count : arguments.length = widths.length)
    (each : ∀ index (inside : index < arguments.length),
      ∃ domain, design.Sees arguments[index] widths[index] domain) :
    design.Keeps (.call function width widths)
      (⟨.result, id⟩ :: arguments.mapIdx fun position id => ⟨.argument position, .whole id⟩) := by
  refine @keeps_of_fits _ _ domain _ ?_ ?_ nofun
  · rw [List.map_cons, pins_mapIdx .argument .whole, count]
    rfl
  · intro connection listed
    rcases List.mem_cons.mp listed with rfl | listed
    · exact onOut.fitsFreely rfl rfl nofun
    · obtain ⟨index, inside, rfl⟩ := List.mem_mapIdx.mp listed
      obtain ⟨domain, sees⟩ := each index inside
      exact sees.fitsFreely (List.getElem?_eq_getElem (count ▸ inside)) rfl nofun

end NetSynth.Design
