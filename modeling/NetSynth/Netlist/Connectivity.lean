import NetSynth.Netlist.Design

/-!
The graph of nets and devices. Every device pin is an edge in the direction in which values flow:
from the net to the device on an input pin, and from the device to the net on an output pin.
-/

namespace NetSynth

/-- A pin of a device as an edge between the device and the net that the pin touches. -/
structure Edge where
  device : DeviceId
  net : NetId
  pin : PinName
  direction : PinDirection
  deriving DecidableEq

structure Connectivity where
  netCount : Nat
  deviceCount : Nat
  edges : List Edge

namespace Connectivity

/-- Edges are in the order of the devices and of the pins on each. -/
def ofDesign (design : Design) : Connectivity where
  netCount := design.nets.size
  deviceCount := design.devices.size
  edges := design.devices.toList.flatMap fun device =>
    device.pins.map fun pin => ⟨device.id, pin.ref.net, pin.pin, pin.direction⟩

def nodeCount (graph : Connectivity) : Nat := graph.netCount + graph.deviceCount

def edgesAt (graph : Connectivity) (net : NetId) (direction : PinDirection) : List Edge :=
  graph.edges.filter fun edge => edge.net == net && edge.direction == direction

/-- The device that drives a net; of several the one whose edge is the last. -/
def driver? (graph : Connectivity) (net : NetId) : Option DeviceId :=
  ((graph.edgesAt net .output).getLast?).map (·.device)

def ascending (graph : Connectivity) (members : List DeviceId) : List DeviceId :=
  ((List.range graph.deviceCount).map DeviceId.mk).filter (members.contains ·)

def readers (graph : Connectivity) (net : NetId) : List DeviceId :=
  graph.ascending ((graph.edgesAt net .input).map (·.device))

def sources (graph : Connectivity) (device : DeviceId) : List NetId :=
  (graph.edges.filter fun edge => edge.device == device && edge.direction == .input).map (·.net)

def outside (graph : Connectivity) (found : List DeviceId) : List Edge :=
  graph.edges.filter fun edge => edge.device ∉ found

theorem outside_cons (graph : Connectivity) (device : DeviceId) (found : List DeviceId) :
    graph.outside (device :: found) = (graph.outside found).filter (·.device != device) := by
  simp only [outside, List.filter_filter]
  congr 1
  funext edge
  by_cases same : edge.device = device <;> simp [same]

/-- Finding another device leaves fewer edges to the devices that are not found. -/
theorem outside_cons_lt (graph : Connectivity) {found : List DeviceId} {net : NetId} {edge : Edge}
    (fresh : (graph.edgesAt net .output).find? (fun edge => edge.device ∉ found) = some edge) :
    (graph.outside (edge.device :: found)).length < (graph.outside found).length := by
  rw [outside_cons, List.length_filter_lt_length_iff_exists]
  have member := List.mem_filter.mp (List.mem_of_find?_eq_some fresh)
  have absent := List.find?_some fresh
  exact ⟨edge, List.mem_filter.mpr ⟨member.1, absent⟩, by simp⟩

/-- Adds to `found` the devices from which a pending net can be reached. A net is done when its
drivers are found, and the nets that a new driver reads are pending after it. -/
def behind (graph : Connectivity) (pending : List NetId) (found : List DeviceId) : List DeviceId :=
  match pending with
  | [] => found
  | net :: rest =>
      match _ : (graph.edgesAt net .output).find? (fun edge => edge.device ∉ found) with
      | none => behind graph rest found
      | some edge =>
          behind graph (graph.sources edge.device ++ net :: rest) (edge.device :: found)
termination_by ((graph.outside found).length, pending.length)
decreasing_by
  · exact Prod.Lex.right _ (Nat.lt_succ_self _)
  · apply Prod.Lex.left
    exact outside_cons_lt graph ‹_›

def cone (graph : Connectivity) (net : NetId) : List DeviceId :=
  graph.ascending (graph.behind [net] [])

end Connectivity

end NetSynth
