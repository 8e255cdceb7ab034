import Mathlib.Data.List.Destutter
import NetSynth.Proofs.Acyclicity

/-! The two records of the pins on a net agree: the endpoints that a net collects while devices are
made, and the graph that is built from the pins of all devices afterwards. -/
namespace NetSynth

namespace Design

def pinsOf (design : Design) (net : NetId) : List Endpoint :=
  design.devices.toList.flatMap fun device => pinsOn device.id device.connections net

/-- Every net has noted exactly the pins on it, in their order. -/
def Records (design : Design) : Prop :=
  ∀ ⦃id net⦄, design.net? id = some net → net.endpoints.toList = design.pinsOf id

variable {design before after : Design}

theorem device_stored {device : Device} (member : device ∈ design.devices.toList) :
    ∃ id, design.device? id = some device := by
  obtain ⟨place, stored⟩ := List.mem_iff_getElem?.mp member
  exact ⟨⟨place⟩, by simpa [device?] using stored⟩

theorem WellFormed.connected (valid : design.WellFormed) {device : Device}
    (member : device ∈ design.devices.toList) {pin : Pin} (connected : pin ∈ device.pins) :
    ∃ net, design.net? pin.ref.net = some net := by
  obtain ⟨id, stored⟩ := device_stored member
  obtain ⟨net, known, _⟩ :=
    (valid.contract stored).refs pin.toConnection (List.mem_map_of_mem connected)
  exact ⟨net, known⟩

theorem WellFormed.pinsOf_eq_nil (valid : design.WellFormed) {id : NetId}
    (absent : design.net? id = none) : design.pinsOf id = [] := by
  rw [pinsOf, List.flatMap_eq_nil_iff]
  intro device member
  rw [pinsOn, List.map_eq_nil_iff, List.filter_eq_nil_iff]
  intro connection connected same
  obtain ⟨pin, onDevice, rfl⟩ := List.mem_map.mp connected
  obtain ⟨net, known⟩ := valid.connected member onDevice
  rw [beq_iff_eq] at same
  rw [same, absent] at known
  cases known

theorem WellFormed.device_lt_of_mem_pinsOf (valid : design.WellFormed) {id : NetId}
    {endpoint : Endpoint} (member : endpoint ∈ design.pinsOf id) :
    endpoint.device.index < design.devices.size := by
  obtain ⟨device, listed, shown⟩ := List.mem_flatMap.mp member
  obtain ⟨_, _, rfl⟩ := List.mem_map.mp shown
  obtain ⟨id, stored⟩ := device_stored listed
  rw [valid.deviceId stored]
  exact (Array.getElem?_eq_some_iff.mp stored).1

/-- A step that makes a device notes its pins, and no other step touches what was noted. -/
theorem Step.records (step : Step before after) (valid : before.WellFormed)
    (records : before.Records) : after.Records := by
  intro id net known
  cases step with
  | net scope name origin type isLocal span scalar =>
    rw [net?_pushNet] at known
    split at known
    · rename_i last
      cases known
      have absent : before.net? id = none := by simp [net?, last]
      exact (valid.pinsOf_eq_nil absent).symm
    · exact records known
  | memory memory words described distinct =>
    rw [net?_nameMemory, Option.map_eq_some_iff] at known
    obtain ⟨old, found, rfl⟩ := known
    have kept := records found
    split <;> exact kept
  | device scope name kind connections span accepted =>
    rw [net?_pushDevice, Option.map_eq_some_iff] at known
    obtain ⟨old, found, rfl⟩ := known
    simp only [Array.toList_append, records found, pinsOf, pushDevice, Array.toList_push,
      List.flatMap_append, List.flatMap_singleton, Device.connections_mk, DeviceKind.map_connect]
  | _ => exact records known

theorem Steps.records (steps : Steps before after) (valid : before.WellFormed)
    (records : before.Records) : after.Records := by
  induction steps with
  | refl => exact records
  | tail earlier step ih => exact step.records (Steps.wellFormed earlier valid) ih

theorem reached_records (rootName : String) (commands : List Command) :
    (reached rootName commands).Records := by
  apply (reached_steps rootName commands).records (wellFormed_empty rootName)
  intro id net known
  simp [empty, net?] at known

end Design

deriving instance DecidableEq for Connectivity.Node

structure Arrow where
  source : Connectivity.Node
  target : Connectivity.Node
  pin : PinName

/-- The edge runs in the direction that is stored with the pin. -/
def Arrow.ofPin (device : DeviceId) (pin : Pin) : Arrow :=
  match pin.direction with
  | .input => ⟨.net pin.ref.net, .device device, pin.pin⟩
  | .output => ⟨.device device, .net pin.ref.net, pin.pin⟩

/-- The end at the net, of an edge for a pin of the direction. -/
def Arrow.netEnd (arrow : Arrow) : PinDirection → Connectivity.Node
  | .input => arrow.source
  | .output => arrow.target

def Arrow.deviceEnd (arrow : Arrow) : PinDirection → Connectivity.Node
  | .input => arrow.target
  | .output => arrow.source

structure FlowGraph where
  nodes : List Connectivity.Node
  arrows : List Arrow

namespace FlowGraph

def addPin (device : DeviceId) (graph : FlowGraph) (pin : Pin) : Except Stop FlowGraph :=
  if .net pin.ref.net ∈ graph.nodes then
    .ok { graph with arrows := graph.arrows ++ [.ofPin device pin] }
  else
    .error (.missingNet pin.ref.net)

def addDevice (graph : FlowGraph) (device : Device) : Except Stop FlowGraph :=
  device.pins.foldlM (addPin device.id)
    { graph with nodes := graph.nodes ++ [.device device.id] }

def ofNets (count : Nat) : FlowGraph := ⟨(List.range count).map fun index => .net ⟨index⟩, []⟩

/-- The graph of a design: all nets, and then one device after the other. -/
def ofDesign? (design : Design) : Except Stop FlowGraph :=
  design.devices.toList.foldlM addDevice (ofNets design.nets.size)

/-- How the nodes next to a node are listed, against the edges into it and along those out of it. -/
structure Neighbours where
  incoming : FlowGraph → Connectivity.Node → List Connectivity.Node
  outgoing : FlowGraph → Connectivity.Node → List Connectivity.Node

/-- The edges of a node are followed from the one that was added last to the first. -/
structure Neighbours.LatestFirst (neighbours : Neighbours) : Prop where
  incoming : ∀ graph node, neighbours.incoming graph node =
    ((graph.arrows.filter (·.target = node)).map (·.source)).reverse
  outgoing : ∀ graph node, neighbours.outgoing graph node =
    ((graph.arrows.filter (·.source = node)).map (·.target)).reverse

def Neighbours.latest : Neighbours where
  incoming graph node := ((graph.arrows.filter (·.target = node)).map (·.source)).reverse
  outgoing graph node := ((graph.arrows.filter (·.source = node)).map (·.target)).reverse

theorem Neighbours.latestFirst_latest : latest.LatestFirst := ⟨fun _ _ => rfl, fun _ _ => rfl⟩

def deviceOf? : Connectivity.Node → Option DeviceId
  | .net _ => none
  | .device id => some id

/-- The first device that is listed before a net. -/
def driver? (graph : FlowGraph) (neighbours : Neighbours) (net : NetId) : Option DeviceId :=
  if .net net ∈ graph.nodes then
    (neighbours.incoming graph (.net net)).findSome? deviceOf?
  else none

/-- Sorts devices, and drops each that equals the one before it. -/
def ascending (devices : List DeviceId) : List DeviceId :=
  (devices.mergeSort (·.index ≤ ·.index)).destutter (· ≠ ·)

def readers (graph : FlowGraph) (neighbours : Neighbours) (net : NetId) : List DeviceId :=
  if .net net ∈ graph.nodes then
    ascending ((neighbours.outgoing graph (.net net)).filterMap deviceOf?)
  else []

theorem sorted (devices : List DeviceId) :
    (devices.mergeSort (·.index ≤ ·.index)).Pairwise (·.index ≤ ·.index) := by
  have sorted := @List.pairwise_mergeSort _ (fun a b : DeviceId => decide (a.index ≤ b.index))
    (fun _ _ _ => by simpa using Nat.le_trans) (fun _ _ => by simpa using Nat.le_total _ _) devices
  simpa using sorted

theorem ascending_eq_dedup (devices : List DeviceId) :
    ascending devices = (devices.mergeSort (·.index ≤ ·.index)).dedup := by
  have antisymm : Std.Antisymm fun a b : DeviceId => a.index ≤ b.index :=
    ⟨fun a b le ge => congrArg DeviceId.mk (Nat.le_antisymm le ge)⟩
  exact (sorted devices).destutter_eq_dedup

theorem mem_ascending {devices : List DeviceId} {device : DeviceId} :
    device ∈ ascending devices ↔ device ∈ devices := by
  rw [ascending_eq_dedup, List.mem_dedup, List.mem_mergeSort]

theorem ascending_ext {first second : List DeviceId}
    (ascending : first.Pairwise (·.index < ·.index))
    (ascending' : second.Pairwise (·.index < ·.index))
    (same : ∀ device, device ∈ first ↔ device ∈ second) : first = second := by
  have distinct : ∀ {devices : List DeviceId}, devices.Pairwise (·.index < ·.index) →
      devices.Nodup :=
    fun pairwise => pairwise.imp fun lt same => Nat.ne_of_lt lt (congrArg _ same)
  have perm := (List.perm_ext_iff_of_nodup (distinct ascending) (distinct ascending')).mpr same
  exact perm.eq_of_pairwise (fun _ _ _ _ lt gt => absurd lt (Nat.lt_asymm gt)) ascending ascending'

/-- Equal devices are neighbours in a sorted list, so no device is left twice. -/
theorem ascending_pairwise (devices : List DeviceId) :
    (ascending devices).Pairwise (·.index < ·.index) := by
  rw [ascending_eq_dedup]
  have sorted := (sorted devices).sublist (List.dedup_sublist _)
  have nodup := List.nodup_dedup (devices.mergeSort (·.index ≤ ·.index))
  refine (sorted.and nodup).imp fun ⟨le, other⟩ => ?_
  exact Nat.lt_of_le_of_ne le fun same => other (congrArg DeviceId.mk same)

theorem foldlM_addPin (device : DeviceId) (pins : List Pin) (graph : FlowGraph)
    (known : ∀ pin ∈ pins, .net pin.ref.net ∈ graph.nodes) :
    pins.foldlM (addPin device) graph =
      .ok ⟨graph.nodes, graph.arrows ++ pins.map (.ofPin device)⟩ := by
  induction pins generalizing graph with
  | nil => simp [pure, Except.pure]
  | cons pin rest ih =>
    have present := known pin List.mem_cons_self
    rw [List.foldlM_cons, addPin, if_pos present]
    change rest.foldlM (addPin device) _ = _
    rw [ih]
    · simp
    · exact fun other member => known other (List.mem_cons_of_mem _ member)

theorem foldlM_addDevice (devices : List Device) (graph : FlowGraph)
    (known : ∀ device ∈ devices, ∀ pin ∈ device.pins, .net pin.ref.net ∈ graph.nodes) :
    devices.foldlM addDevice graph =
      .ok ⟨graph.nodes ++ devices.map fun device => .device device.id, graph.arrows ++
        devices.flatMap fun device => device.pins.map (.ofPin device.id)⟩ := by
  induction devices generalizing graph with
  | nil => simp [pure, Except.pure]
  | cons device rest ih =>
    have own : ∀ pin ∈ device.pins, .net pin.ref.net ∈ graph.nodes ++ [.device device.id] :=
      fun pin member => List.mem_append_left _ (known device List.mem_cons_self pin member)
    rw [List.foldlM_cons, addDevice, foldlM_addPin _ _ _ own]
    change rest.foldlM addDevice _ = _
    rw [ih]
    · simp
    · intro other member pin connected
      exact List.mem_append_left _ (known other (List.mem_cons_of_mem _ member) pin connected)

theorem net_mem_ofNets {count : Nat} {id : NetId} :
    .net id ∈ (ofNets count).nodes ↔ id.index < count := by
  constructor
  · intro member
    obtain ⟨index, inside, same⟩ := List.mem_map.mp member
    cases same
    exact List.mem_range.mp inside
  · exact fun inside => List.mem_map.mpr ⟨id.index, List.mem_range.mpr inside, rfl⟩

variable {design : Design} {graph : FlowGraph} {neighbours : Neighbours}

/-- The nodes and the edges that building a graph of the design comes to. -/
structure Shows (graph : FlowGraph) (design : Design) : Prop where
  nodes : graph.nodes = (List.range design.nets.size).map (fun index => .net ⟨index⟩) ++
    (List.range design.devices.size).map fun index => .device ⟨index⟩
  arrows : graph.arrows =
    design.devices.toList.flatMap fun device => device.pins.map (.ofPin device.id)

theorem deviceIds (valid : design.WellFormed) : design.devices.toList.map (·.id) =
    (List.range design.devices.size).map DeviceId.mk := by
  refine List.ext_getElem (by simp) fun place inside inside' => ?_
  simp only [List.length_map, Array.length_toList] at inside
  have stored : design.device? ⟨place⟩ = some design.devices[place] :=
    Array.getElem?_eq_getElem inside
  simpa using valid.deviceId stored

theorem exists_ofDesign? (valid : design.WellFormed) :
    ∃ graph, ofDesign? design = .ok graph ∧ graph.Shows design := by
  have known : ∀ device ∈ design.devices.toList, ∀ pin ∈ device.pins,
      .net pin.ref.net ∈ (ofNets design.nets.size).nodes := by
    intro device member pin connected
    obtain ⟨net, stored⟩ := valid.connected member connected
    exact net_mem_ofNets.mpr (design.net?_lt stored)
  have nodes : design.devices.toList.map (fun device => Connectivity.Node.device device.id) =
      (List.range design.devices.size).map fun index => .device ⟨index⟩ := by
    have ids := congrArg (List.map Connectivity.Node.device) (deviceIds valid)
    rwa [List.map_map, List.map_map] at ids
  refine ⟨_, foldlM_addDevice _ _ known, ?_, ?_⟩
  · rw [nodes]
    rfl
  · rfl

variable {id : NetId}

theorem Shows.net_mem (shown : graph.Shows design) :
    .net id ∈ graph.nodes ↔ id.index < design.nets.size := by
  rw [shown.nodes, List.mem_append, ← net_mem_ofNets]
  constructor
  · rintro (net | device)
    · exact net
    · obtain ⟨_, _, same⟩ := List.mem_map.mp device
      cases same
  · exact .inl

theorem arrows_ofPin (device : DeviceId) (direction : PinDirection) {pins : List Pin}
    (directed : ∀ pin ∈ pins, pin.direction = pin.pin.direction) :
    ((pins.map (Arrow.ofPin device)).filter (·.netEnd direction = .net id)).map
        (·.deviceEnd direction) =
      ((Design.pinsOn device (pins.map (·.toConnection)) id).filter
        (·.pin.direction == direction)).map (.device ·.device) := by
  induction pins with
  | nil => rfl
  | cons pin rest ih =>
    have own := directed pin List.mem_cons_self
    have rest := ih fun other member => directed other (List.mem_cons_of_mem _ member)
    by_cases same : pin.ref.net = id <;> cases stored : pin.pin.direction <;>
      cases direction <;> simp_all [Design.pinsOn, Arrow.ofPin, Arrow.netEnd, Arrow.deviceEnd]

theorem Shows.arrows_net (shown : graph.Shows design) (valid : design.WellFormed)
    (direction : PinDirection) :
    (graph.arrows.filter (·.netEnd direction = .net id)).map (·.deviceEnd direction) =
      ((design.pinsOf id).filter (·.pin.direction == direction)).map (.device ·.device) := by
  rw [shown.arrows, Design.pinsOf, List.filter_flatMap, List.filter_flatMap, List.map_flatMap,
    List.map_flatMap]
  refine List.flatMap_congr fun device member => ?_
  obtain ⟨_, stored⟩ := Design.device_stored member
  exact arrows_ofPin device.id direction (valid.directed stored)

section Net

variable (shown : graph.Shows design) (valid : design.WellFormed) (latest : neighbours.LatestFirst)
include shown valid latest

theorem Shows.incoming_net : neighbours.incoming graph (.net id) =
    (((design.pinsOf id).filter (·.pin.direction == .output)).map (.device ·.device)).reverse := by
  rw [latest.incoming, ← shown.arrows_net valid .output]
  rfl

theorem Shows.outgoing_net : neighbours.outgoing graph (.net id) =
    (((design.pinsOf id).filter (·.pin.direction == .input)).map (.device ·.device)).reverse := by
  rw [latest.outgoing, ← shown.arrows_net valid .input]
  rfl

/-- The edge that was added last is met first. -/
theorem Shows.driver?_eq (inside : id.index < design.nets.size) : graph.driver? neighbours id =
    ((design.pinsOf id).filter (·.pin.direction == .output)).getLast?.map (·.device) := by
  rw [driver?, if_pos (shown.net_mem.mpr inside), shown.incoming_net valid latest,
    ← List.map_reverse, List.findSome?_map, ← List.head?_reverse]
  cases ((design.pinsOf id).filter (·.pin.direction == .output)).reverse <;> rfl

theorem Shows.mem_readers (inside : id.index < design.nets.size) {device : DeviceId} :
    device ∈ graph.readers neighbours id ↔ ∃ endpoint ∈ design.pinsOf id,
      endpoint.pin.direction = .input ∧ endpoint.device = device := by
  rw [readers, if_pos (shown.net_mem.mpr inside), mem_ascending, shown.outgoing_net valid latest]
  simp [deviceOf?, and_assoc]

end Net

theorem readers_pairwise (graph : FlowGraph) (neighbours : Neighbours) (id : NetId) :
    (graph.readers neighbours id).Pairwise (·.index < ·.index) := by
  rw [readers]
  split
  · exact ascending_pairwise _
  · exact List.Pairwise.nil

end FlowGraph

namespace Connectivity

variable {design : Design}

theorem devices_edgesAt (valid : design.WellFormed) (net : NetId) (direction : PinDirection) :
    ((ofDesign design).edgesAt net direction).map (·.device) =
      ((design.pinsOf net).filter (·.pin.direction == direction)).map (·.device) := by
  rw [edgesAt, ofDesign, Design.pinsOf, List.filter_flatMap, List.filter_flatMap,
    List.map_flatMap, List.map_flatMap]
  refine List.flatMap_congr fun device member => ?_
  obtain ⟨_, stored⟩ := Design.device_stored member
  have directed := valid.directed stored
  simp only [Design.pinsOn, Device.connections, List.filter_map, List.filter_filter, List.map_map,
    Function.comp_def]
  refine congrArg (List.map _) (List.filter_congr fun pin listed => ?_)
  rw [directed pin listed, Bool.and_comm]
  rfl

theorem ascending_pairwise (graph : Connectivity) (members : List DeviceId) :
    (graph.ascending members).Pairwise (·.index < ·.index) := by
  apply List.Pairwise.filter
  rw [List.pairwise_map]
  exact List.pairwise_lt_range

theorem mem_ascending (graph : Connectivity) {members : List DeviceId} {device : DeviceId} :
    device ∈ graph.ascending members ↔ device ∈ members ∧ device.index < graph.deviceCount := by
  rw [ascending, List.mem_filter, List.contains_iff_mem, and_comm, List.mem_map]
  refine and_congr_right fun _ => ?_
  constructor
  · rintro ⟨index, inside, rfl⟩
    exact List.mem_range.mp inside
  · exact fun inside => ⟨device.index, List.mem_range.mpr inside, rfl⟩

end Connectivity

namespace FlowGraph

variable {design : Design} {graph : FlowGraph} {neighbours : Neighbours}
  (shown : graph.Shows design) (valid : design.WellFormed) (latest : neighbours.LatestFirst)
include shown valid latest

theorem Shows.driver?_agrees (id : NetId) :
    graph.driver? neighbours id = (Connectivity.ofDesign design).driver? id := by
  rw [Connectivity.driver?, ← List.getLast?_map, Connectivity.devices_edgesAt valid,
    List.getLast?_map]
  by_cases inside : id.index < design.nets.size
  · exact shown.driver?_eq valid latest inside
  · have absent : design.net? id = none := Array.getElem?_eq_none (Nat.le_of_not_lt inside)
    rw [driver?, if_neg (inside ∘ shown.net_mem.mp), valid.pinsOf_eq_nil absent]
    rfl

theorem Shows.readers_agree (id : NetId) :
    graph.readers neighbours id = (Connectivity.ofDesign design).readers id := by
  refine ascending_ext (readers_pairwise graph neighbours id) (Connectivity.ascending_pairwise _ _)
    fun device => ?_
  rw [Connectivity.readers, Connectivity.mem_ascending, Connectivity.devices_edgesAt valid]
  by_cases inside : id.index < design.nets.size
  · rw [shown.mem_readers valid latest inside]
    constructor
    · rintro ⟨endpoint, member, input, rfl⟩
      exact ⟨List.mem_map.mpr ⟨endpoint, List.mem_filter.mpr ⟨member, by simp [input]⟩, rfl⟩,
        valid.device_lt_of_mem_pinsOf member⟩
    · rintro ⟨listed, _⟩
      obtain ⟨endpoint, member, rfl⟩ := List.mem_map.mp listed
      obtain ⟨member, input⟩ := List.mem_filter.mp member
      exact ⟨endpoint, member, by simpa using input, rfl⟩
  · have absent : design.net? id = none := Array.getElem?_eq_none (Nat.le_of_not_lt inside)
    rw [readers, if_neg (inside ∘ shown.net_mem.mp), valid.pinsOf_eq_nil absent]
    simp

end FlowGraph

/-- The two records of the pins agree in every design that can come about. Each net lists the pins
on it in the order of the devices and of the pins on each; the graph can be built, with a node for
every net and device and an edge for every pin; and what the graph says of the devices at a net is
what the net has noted, where the edges of a node are followed from the last to the first. -/
theorem connectivity_records_agree (rootName : String) (commands : List Command) :
    let design := Design.reached rootName commands
    (∀ id device, design.device? id = some device → device.id = id) ∧
    (∀ id net, design.net? id = some net → net.endpoints.toList = design.pinsOf id) ∧
    ∃ graph, FlowGraph.ofDesign? design = .ok graph ∧
      graph.nodes = (List.range design.nets.size).map (fun index => .net ⟨index⟩) ++
        (List.range design.devices.size).map (fun index => .device ⟨index⟩) ∧
      graph.arrows = design.devices.toList.flatMap (fun device =>
        device.pins.map (Arrow.ofPin device.id)) ∧
      ∀ neighbours : FlowGraph.Neighbours, neighbours.LatestFirst →
        (∀ id net, design.net? id = some net →
          (graph.readers neighbours id).Pairwise (·.index < ·.index) ∧
          (∀ device, device ∈ graph.readers neighbours id ↔ ∃ endpoint ∈ net.endpoints,
            endpoint.pin.direction = .input ∧ endpoint.device = device) ∧
          graph.driver? neighbours id = net.drivers.getLast?.map (·.device)) ∧
        ∀ id, graph.readers neighbours id = (Connectivity.ofDesign design).readers id ∧
          graph.driver? neighbours id = (Connectivity.ofDesign design).driver? id := by
  intro design
  have valid : design.WellFormed := (Design.reached_steps rootName commands).wellFormed
    (Design.wellFormed_empty rootName)
  have records : design.Records := Design.reached_records rootName commands
  obtain ⟨graph, built, shown⟩ := FlowGraph.exists_ofDesign? valid
  refine ⟨fun id device => valid.deviceId, fun id net => @records id net, graph, built, shown.nodes,
    shown.arrows, fun neighbours latest => ⟨fun id net known => ?_, fun id =>
      ⟨shown.readers_agree valid latest id, shown.driver?_agrees valid latest id⟩⟩⟩
  have inside := design.net?_lt known
  refine ⟨graph.readers_pairwise neighbours id, fun device => ?_, ?_⟩
  · rw [shown.mem_readers valid latest inside, ← records known]
    simp
  · rw [shown.driver?_eq valid latest inside, ← records known, Net.drivers]

/-- Two inverters in a loop, of which a constant drives one net as well. -/
theorem connectivity_records_agree_two_drivers :
    let inverter := fun (out source : NetId) => Command.addDevice .root (.logic .not 1 1)
      [⟨.output, .whole out⟩, ⟨.input 0, .whole source⟩] .nowhere
    let design := Design.reached "top" [.addSignal .root "a" .bit .nowhere,
      .addSignal .root "b" .bit .nowhere, inverter ⟨0⟩ ⟨1⟩, inverter ⟨1⟩ ⟨0⟩,
      .addDevice .root (.constant (Bits.ofNat 1 1)) [⟨.output, .whole ⟨0⟩⟩] .nowhere]
    let latest := FlowGraph.Neighbours.latest
    latest.LatestFirst ∧ ∃ graph, FlowGraph.ofDesign? design = .ok graph ∧
      graph.driver? latest ⟨0⟩ = some ⟨2⟩ ∧ graph.readers latest ⟨0⟩ = [⟨1⟩] := by
  intro inverter design latest
  obtain ⟨_, _, graph, built, _, _, agrees⟩ := connectivity_records_agree "top" [
    .addSignal .root "a" .bit .nowhere, .addSignal .root "b" .bit .nowhere, inverter ⟨0⟩ ⟨1⟩,
    inverter ⟨1⟩ ⟨0⟩, .addDevice .root (.constant (Bits.ofNat 1 1)) [⟨.output, .whole ⟨0⟩⟩] .nowhere]
  have latestFirst : latest.LatestFirst := FlowGraph.Neighbours.latestFirst_latest
  obtain ⟨readers, driver⟩ := (agrees latest latestFirst).2 ⟨0⟩
  refine ⟨latestFirst, graph, built, driver.trans ?_, readers.trans ?_⟩ <;> decide +kernel

end NetSynth
