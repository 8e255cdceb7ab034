import NetSynth.Netlist.Connectivity
import NetSynth.Proofs.Commands
import NetSynth.Proofs.Order
import NetSynth.Proofs.SingleDriver

/-! No combinational loop. New devices read only what was there before them, so the order of
creation sorts the devices and the graph of nets and devices has no cycle. -/
namespace NetSynth

namespace Device

/-- An input pin of the device connects to the net. -/
def Reads (device : Device) (net : NetId) : Prop :=
  ∃ pin ∈ device.pins, pin.direction = .input ∧ pin.ref.net = net

/-- An output pin of the device connects to the net. -/
def Writes (device : Device) (net : NetId) : Prop :=
  ∃ pin ∈ device.pins, pin.direction = .output ∧ pin.ref.net = net

variable {device : Device} {net : NetId}

theorem Directed.connected_iff (directed : device.Directed) (direction : PinDirection) :
    (∃ pin ∈ device.pins, pin.direction = direction ∧ pin.ref.net = net) ↔
      ∃ connection ∈ device.connections,
        connection.pin.direction = direction ∧ connection.ref.net = net := by
  constructor
  · rintro ⟨pin, member, same, onNet⟩
    exact ⟨pin.toConnection, List.mem_map_of_mem member, (directed pin member).symm.trans same,
      onNet⟩
  · rintro ⟨_, connected, same, onNet⟩
    obtain ⟨pin, member, rfl⟩ := List.mem_map.mp connected
    exact ⟨pin, member, (directed pin member).trans same, onNet⟩

theorem Directed.reads_iff (directed : device.Directed) : device.Reads net ↔
    ∃ connection ∈ device.connections,
      connection.pin.direction = .input ∧ connection.ref.net = net :=
  directed.connected_iff .input

theorem Directed.writes_iff (directed : device.Directed) : device.Writes net ↔
    ∃ connection ∈ device.connections,
      connection.pin.direction = .output ∧ connection.ref.net = net :=
  directed.connected_iff .output

theorem writes_iff {out : NetId} (directed : device.Directed)
    (drives : Drives out device.connections) : device.Writes net ↔ net = out := by
  obtain ⟨⟨pin, ref⟩, only, whole⟩ := List.map_eq_singleton_iff.mp drives
  subst whole
  have outputs : ∀ connection, connection ∈ device.connections ∧
      connection.pin.direction = .output ↔ connection = ⟨pin, .whole out⟩ := by
    intro connection
    have listed : connection ∈ device.connections.filter (·.pin.direction == .output) ↔
        connection ∈ device.connections ∧ (connection.pin.direction == .output) = true :=
      List.mem_filter
    rw [only, List.mem_singleton, beq_iff_eq] at listed
    exact listed.symm
  rw [directed.writes_iff]
  constructor
  · rintro ⟨connection, member, output, rfl⟩
    rw [(outputs connection).mp ⟨member, output⟩]
    rfl
  · rintro rfl
    obtain ⟨member, output⟩ := (outputs _).mpr rfl
    exact ⟨_, member, output, rfl⟩

end Device

namespace Design

/-- Every input pin of a new device connects to a net that was there before, or to one that a new
device with a smaller number drives. -/
def ReadsEarlier (before after : Design) : Prop :=
  ∀ ⦃id device net⦄, after.device? id = some device → before.devices.size ≤ id.index →
    device.Reads net → (before.net? net).isSome ∨ ∃ id' driver,
      after.device? id' = some driver ∧ before.devices.size ≤ id'.index ∧ id'.index < id.index ∧
        driver.Writes net

/-- Every expression names nets that are there when its turn comes. -/
def Admits : Design → List (SynthesisSettings × Expr) → Prop
  | _, [] => True
  | design, (settings, expr) :: rest => (∀ id ∈ expr.nets, (design.net? id).isSome) ∧
      ((synthesize settings expr).runOn design).2.Admits rest

variable {start design before after : Design} {devices : List Device}

theorem Ordered.at_place (ordered : start.Ordered devices) {place : Nat} {device : Device}
    (stored : devices[place]? = some device) : ∃ out, device.Directed ∧
      Drives out device.connections ∧ ¬start.Known (devices.take place) out ∧
      ∀ net, device.Reads net → start.Known (devices.take place) net := by
  induction ordered with
  | nil => simp at stored
  | @snoc earlier last out ordered directed drives fresh reads ih =>
    by_cases inside : place < earlier.length
    · rw [List.getElem?_append_left inside] at stored
      rw [List.take_append_of_le_length (Nat.le_of_lt inside)]
      exact ih stored
    · obtain ⟨bound, rfl⟩ := List.getElem?_eq_some_iff.mp stored
      obtain rfl : place = earlier.length := by
        rw [List.length_append, List.length_singleton] at bound
        omega
      simp only [List.getElem_concat_length, List.take_left]
      refine ⟨out, directed, drives, fresh, fun net onNet => ?_⟩
      obtain ⟨connection, member, input, rfl⟩ := directed.reads_iff.mp onNet
      exact reads connection member input

/-- In an order the reader of a net stands behind all devices that drive it. -/
theorem Ordered.reads_earlier (ordered : start.Ordered devices) {place place' : Nat}
    {reader driver : Device} (onReader : devices[place]? = some reader)
    (onDriver : devices[place']? = some driver) {net : NetId} (reads : reader.Reads net)
    (writes : driver.Writes net) : place' < place := by
  obtain ⟨_, _, _, _, known⟩ := ordered.at_place onReader
  obtain ⟨out, directed, drives, fresh, _⟩ := ordered.at_place onDriver
  obtain rfl := (Device.writes_iff directed drives).mp writes
  refine Nat.lt_of_not_le fun late => fresh ?_
  obtain ⟨more, same⟩ : devices.take place <+: devices.take place' :=
    List.take_prefix_take_left late
  rw [← same]
  exact (known net reads).append more

theorem newDevices_getElem? (before after : Design) (place : Nat) :
    (before.newDevices after)[place]? = after.device? ⟨before.devices.size + place⟩ := by
  simp [newDevices, device?]

theorem newDevices_of_le {id : DeviceId} (new : before.devices.size ≤ id.index) :
    (before.newDevices after)[id.index - before.devices.size]? = after.device? id := by
  rw [newDevices_getElem?, Nat.add_sub_cancel' new]

theorem Ordered.readsEarlier (ordered : before.Ordered (before.newDevices after)) :
    before.ReadsEarlier after := by
  intro id device net stored new reads
  rw [← newDevices_of_le new] at stored
  obtain ⟨_, _, _, _, known⟩ := ordered.at_place stored
  rcases known net reads with old | ⟨driver, member, drives⟩
  · exact .inl old
  · obtain ⟨place, earlier, rfl⟩ := List.mem_take_iff_getElem.mp member
    have found := List.getElem?_eq_getElem (l := before.newDevices after) (i := place) (by omega)
    obtain ⟨_, directed, _⟩ := ordered.at_place found
    refine .inr ⟨⟨before.devices.size + place⟩, _, ?_, Nat.le_add_right _ _, ?_,
      (Device.writes_iff directed drives).mpr rfl⟩
    · rw [← newDevices_getElem?, found]
    · change before.devices.size + place < id.index
      omega

/-- Devices carry their numbers and connect to nets that exist, and no device reads a net that
itself or a newer device drives. -/
structure Layered (design : Design) : Prop where
  stores : design.StoresWords
  numbered : ∀ {id device}, design.device? id = some device → device.id = id
  connected : ∀ {id device}, design.device? id = some device →
    ∀ connection ∈ device.connections, (design.net? connection.ref.net).isSome
  earlier : ∀ {id id' reader driver net}, design.device? id = some reader →
    design.device? id' = some driver → reader.Reads net → driver.Writes net → id'.index < id.index

theorem layered_of_noDevices (stores : design.StoresWords) (none : design.devices = #[]) :
    design.Layered := by
  have absent : ∀ {id}, design.device? id = Option.none := by simp [device?, none]
  exact ⟨stores, by simp [absent], by simp [absent], by simp [absent]⟩

theorem StoresWords.grows (stores : before.StoresWords) (grown : before.Grows after) :
    after.StoresWords := by
  intro id net words known named word member
  cases found : before.net? id with
  | none => simp [(grown.newNets found known).2.2] at named
  | some old =>
    obtain ⟨net', known', _, _, same⟩ := grown.net found
    obtain rfl := Option.some.inj (known.symm.trans known')
    obtain ⟨stored, present⟩ :=
      Option.isSome_iff_exists.mp (stores found (same.symm.trans named) word member)
    obtain ⟨_, later, _⟩ := grown.net present
    simp [later]

theorem Steps.numbered (steps : before.Steps after)
    (numbered : ∀ {id device}, before.device? id = some device → device.id = id) {id : DeviceId}
    {device : Device} (stored : after.device? id = some device) : device.id = id := by
  induction steps generalizing id device with
  | refl => exact numbered stored
  | tail _ step ih =>
    rcases step.device_origin stored with old | ⟨same, _⟩
    · exact ih old
    · exact same

theorem Grows.device_origin (grown : before.Grows after) {id : DeviceId} {device : Device}
    (stored : after.device? id = some device) : before.device? id = some device ∨
      before.devices.size ≤ id.index ∧
        (before.newDevices after)[id.index - before.devices.size]? = some device := by
  by_cases new : before.devices.size ≤ id.index
  · exact .inr ⟨new, (newDevices_of_le new).trans stored⟩
  · have old : before.device? id = some before.devices[id.index] :=
      Array.getElem?_eq_getElem (by omega)
    exact .inl (old.trans ((grown.device old).symm.trans stored))

/-- New devices in order keep the layers, for none of them drives a net that an old one reads. -/
theorem InOrder.layered {pending : List NetId} (order : before.InOrder pending after)
    (layered : before.Layered)
    (numbered : ∀ {id device}, after.device? id = some device → device.id = id) :
    after.Layered where
  stores := layered.stores.grows order.grows
  numbered := numbered
  connected := by
    intro id device stored connection member
    rcases order.grows.device_origin stored with old | ⟨_, new⟩
    · obtain ⟨net, known⟩ := Option.isSome_iff_exists.mp (layered.connected old connection member)
      obtain ⟨_, later, _⟩ := order.grows.net known
      simp [later]
    · have known : before.Known (before.newDevices after) connection.ref.net := by
        cases direction : connection.pin.direction with
        | input => exact order.ordered.reads (List.mem_of_getElem? new) member direction
        | output =>
          obtain ⟨out, directed, drives, _⟩ := order.ordered.at_place new
          have same := (Device.writes_iff directed drives).mp
            (directed.writes_iff.mpr ⟨connection, member, direction, rfl⟩)
          exact .inr ⟨device, List.mem_of_getElem? new, same ▸ drives⟩
      simpa [net?] using order.inside known
  earlier := by
    intro id id' reader driver net onReader onDriver reads writes
    rcases order.grows.device_origin onReader with old | ⟨new, placed⟩
    · rcases order.grows.device_origin onDriver with old' | ⟨_, placed'⟩
      · exact layered.earlier old old' reads writes
      · obtain ⟨out, directed, drives, fresh, _⟩ := order.ordered.at_place placed'
        obtain rfl := (Device.writes_iff directed drives).mp writes
        obtain ⟨pin, member, _, rfl⟩ := reads
        exact absurd (.inl (layered.connected old _ (List.mem_map_of_mem member))) fresh
    · by_cases new' : before.devices.size ≤ id'.index
      · rw [← newDevices_of_le new'] at onDriver
        have sorted := order.ordered.reads_earlier placed onDriver reads writes
        omega
      · omega

theorem Layered.synthesize (layered : design.Layered) (settings : SynthesisSettings) (expr : Expr)
    (named : ∀ id ∈ expr.nets, (design.net? id).isSome) :
    ((NetSynth.synthesize settings expr).runOn design).2.Layered := by
  obtain ⟨_, order⟩ := layered.stores.synthesize_inOrder settings expr named
  have steps := (@Build.moves_synthesize design settings expr).steps
  exact order.layered layered (steps.numbered layered.numbered)

theorem Layered.synthesized (layered : design.Layered) (calls : List (SynthesisSettings × Expr))
    (admits : design.Admits calls) : (design.synthesized calls).2.Layered := by
  induction calls generalizing design with
  | nil => exact layered
  | cons call rest ih =>
    obtain ⟨settings, expr⟩ := call
    exact ih (layered.synthesize settings expr admits.1) admits.2

end Design

/-! ### The graph of nets and devices -/

namespace Connectivity

inductive Node where
  | net (id : NetId)
  | device (id : DeviceId)

/-- Values flow from a net into a device at an input pin, and out of it at an output pin. -/
inductive Flows (graph : Connectivity) : Node → Node → Prop
  | input {edge : Edge} (member : edge ∈ graph.edges) (direction : edge.direction = .input) :
      Flows graph (.net edge.net) (.device edge.device)
  | output {edge : Edge} (member : edge ∈ graph.edges) (direction : edge.direction = .output) :
      Flows graph (.device edge.device) (.net edge.net)

/-- No value flows back to where it came from. -/
def Acyclic (graph : Connectivity) : Prop :=
  ∀ node, ¬Relation.TransGen graph.Flows node node

/-- The order of creation is a topological order: what drives a net was made before what reads
it. -/
def CreatedInOrder (graph : Connectivity) : Prop :=
  ∀ driver ∈ graph.edges, driver.direction = .output →
    ∀ reader ∈ graph.edges, reader.direction = .input → reader.net = driver.net →
      driver.device.index < reader.device.index

variable {graph : Connectivity}

/-- Whether a node lies behind a device in the order of creation: a newer device, or a net that the
device or a newer one drives. -/
def Behind (graph : Connectivity) (device : DeviceId) : Node → Prop
  | .device id => device.index < id.index
  | .net id => ∃ edge ∈ graph.edges, edge.direction = .output ∧ edge.net = id ∧
      device.index ≤ edge.device.index

theorem CreatedInOrder.behind (created : graph.CreatedInOrder) {device : DeviceId} {node : Node}
    (flows : Relation.TransGen graph.Flows (.device device) node) : graph.Behind device node := by
  have step : ∀ {node node'}, node = .device device ∨ graph.Behind device node →
      graph.Flows node node' → graph.Behind device node' := by
    rintro node node' start flow
    cases flow with
    | @input reader member direction =>
      obtain ⟨driver, listed, output, same, le⟩ := start.resolve_left nofun
      have lt := created driver listed output reader member direction same.symm
      exact Nat.lt_of_le_of_lt le lt
    | @output driver member direction =>
      refine ⟨driver, member, direction, rfl, ?_⟩
      rcases start with same | later
      · exact Nat.le_of_eq (by rw [Node.device.inj same])
      · exact Nat.le_of_lt later
  induction flows with
  | single flow => exact step (.inl rfl) flow
  | tail _ flow ih => exact step (.inr ih) flow

theorem CreatedInOrder.acyclic (created : graph.CreatedInOrder) : graph.Acyclic := by
  intro node cycle
  cases node with
  | device id => exact Nat.lt_irrefl _ (created.behind cycle)
  | net id =>
    -- The cycle leaves the net at a device, and from there it comes back to the net.
    obtain ⟨next, flow, back⟩ := Relation.TransGen.head'_iff.mp cycle
    cases flow with
    | @input reader member direction =>
      rcases Relation.reflTransGen_iff_eq_or_transGen.mp back with same | back
      · cases same
      · obtain ⟨driver, listed, output, same, le⟩ := created.behind back
        have lt := created driver listed output reader member direction same.symm
        omega

end Connectivity

theorem Connectivity.mem_edges_ofDesign {design : Design}
    (numbered : ∀ {id device}, design.device? id = some device → device.id = id) {edge : Edge} :
    edge ∈ (ofDesign design).edges ↔ ∃ device, design.device? edge.device = some device ∧
      ∃ pin ∈ device.pins, pin.pin = edge.pin ∧ pin.direction = edge.direction ∧
        pin.ref.net = edge.net := by
  simp only [ofDesign, List.mem_flatMap, List.mem_map]
  constructor
  · rintro ⟨device, listed, pin, connected, rfl⟩
    obtain ⟨place, stored⟩ := List.mem_iff_getElem?.mp listed
    have stored : design.device? ⟨place⟩ = some device := by simpa [Design.device?] using stored
    exact ⟨device, by rw [numbered stored, stored], pin, connected, rfl, rfl, rfl⟩
  · rintro ⟨device, stored, pin, connected, name, direction, net⟩
    obtain ⟨id, _, _, _⟩ := edge
    refine ⟨device, Array.mem_toList_iff.mpr (Array.mem_of_getElem? stored), pin, connected, ?_⟩
    rw [numbered stored, name, direction, net]

theorem Design.Layered.createdInOrder {design : Design} (layered : design.Layered) :
    (Connectivity.ofDesign design).CreatedInOrder := by
  have edges := @Connectivity.mem_edges_ofDesign design layered.numbered
  intro driver onDriver output reader onReader input same
  obtain ⟨writer, stored, pin, connected, _, direction, net⟩ := edges.mp onDriver
  obtain ⟨device, stored', pin', connected', _, direction', net'⟩ := edges.mp onReader
  exact layered.earlier stored' stored ⟨pin', connected', direction'.trans input, net'⟩
    ⟨pin, connected, direction.trans output, net.trans same.symm⟩

/-- Whatever a request comes to, its devices read only nets that were there before or that an
earlier one of them drives. So in a design that began without devices the order of creation is a
topological order after any number of requests, and the graph has no cycle. -/
theorem synthesis_acyclic (design : Design) (stores : design.StoresWords) :
    (∀ settings expr, (∀ id ∈ expr.nets, (design.net? id).isSome) →
      design.ReadsEarlier ((synthesize settings expr).runOn design).2) ∧
    (design.devices = #[] → ∀ calls, design.Admits calls →
      let graph := Connectivity.ofDesign (design.synthesized calls).2
      graph.CreatedInOrder ∧ graph.Acyclic) := by
  constructor
  · intro settings expr named
    obtain ⟨_, order⟩ := stores.synthesize_inOrder settings expr named
    exact order.ordered.readsEarlier
  · intro noDevices calls admits
    have layered := (Design.layered_of_noDevices stores noDevices).synthesized calls admits
    have created := layered.createdInOrder
    exact ⟨created, created.acyclic⟩

/-- A word of a memory is added to a signal, and the sum is inverted by a second request. -/
theorem synthesis_acyclic_inverted_sum :
    let design := Design.reached "top" [.addMemory .root "m" 4 false 0 3 .nowhere,
      .addSignal .root "i" (.vector 2 false) .nowhere,
      .addSignal .root "a" (.vector 4 false) .nowhere]
    let read := Expr.word ⟨.vector 4 false, .nowhere⟩ ⟨4⟩ (.signal ⟨.vector 2 false, .nowhere⟩ ⟨5⟩)
    let sum := Expr.binary ⟨.vector 5 false, .nowhere⟩ (.sum .add)
      (.signal ⟨.vector 4 false, .nowhere⟩ ⟨6⟩) read
    let inverted := Expr.unary ⟨.vector 5 false, .nowhere⟩ .invert
      (.signal ⟨.vector 5 false, .nowhere⟩ ⟨12⟩)
    let calls := [({}, sum), ({}, inverted)]
    design.StoresWords ∧ design.devices = #[] ∧ design.Admits calls ∧
      design.ReadsEarlier ((synthesize {} sum).runOn design).2 ∧
      (design.synthesized calls).2.devices.size = 7 ∧
      (Connectivity.ofDesign (design.synthesized calls).2).Acyclic := by
  intro design read sum inverted calls
  have stores : design.StoresWords :=
    ((Design.reached_steps "top" _).wellFormed (Design.wellFormed_empty "top")).storesWords
  have noDevices : design.devices = #[] := Array.eq_empty_of_size_eq_zero (by decide +kernel)
  have admits : design.Admits calls := ⟨by decide +kernel, by decide +kernel, trivial⟩
  obtain ⟨each, all⟩ := synthesis_acyclic design stores
  exact ⟨stores, noDevices, admits, each {} sum admits.1, by decide +kernel,
    (all noDevices calls admits).2⟩

end NetSynth
