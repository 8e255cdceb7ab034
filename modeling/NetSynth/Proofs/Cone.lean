import NetSynth.Proofs.FlowGraph

/-! The search behind a net is exact. It finds the devices from which a chain of pins leads to the
net, whatever loops there are among them, and no others. -/
namespace NetSynth

namespace Connectivity

/-- A device that drives the target reads the source. -/
def Feeds (graph : Connectivity) (source target : NetId) : Prop :=
  ∃ edge ∈ graph.edgesAt target .output, source ∈ graph.sources edge.device

def LeadsTo (graph : Connectivity) (device : DeviceId) (net : NetId) : Prop :=
  ∃ target, (∃ edge ∈ graph.edgesAt target .output, edge.device = device) ∧
    Relation.ReflTransGen graph.Feeds target net

/-- All devices that drive the net are found. -/
def Settled (graph : Connectivity) (found : List DeviceId) (net : NetId) : Prop :=
  ∀ edge ∈ graph.edgesAt net .output, edge.device ∈ found

/-- What a found device reads is settled, or it is pending still. -/
def ClosedBut (graph : Connectivity) (pending : List NetId) (found : List DeviceId) : Prop :=
  ∀ device ∈ found, ∀ source ∈ graph.sources device, source ∈ pending ∨ graph.Settled found source

variable {graph : Connectivity} {pending : List NetId} {found : List DeviceId}

theorem Settled.mono {more : List DeviceId} {net : NetId} (settled : graph.Settled found net)
    (subset : found ⊆ more) : graph.Settled more net :=
  fun edge member => subset (settled edge member)

theorem settled_of_find?_eq_none {net : NetId}
    (none : (graph.edgesAt net .output).find? (fun edge => edge.device ∉ found) = none) :
    graph.Settled found net := by
  intro edge member
  simpa using List.find?_eq_none.mp none edge member

theorem subset_behind (graph : Connectivity) (pending : List NetId) (found : List DeviceId) :
    found ⊆ graph.behind pending found := by
  fun_induction behind graph pending found with
  | case1 found => exact List.Subset.refl found
  | case2 found net rest none ih => exact ih
  | case3 found net rest edge fresh ih => exact fun device member => ih (List.mem_cons_of_mem _ member)

theorem behind_settles (graph : Connectivity) (pending : List NetId) (found : List DeviceId) :
    ∀ net ∈ pending, graph.Settled (graph.behind pending found) net := by
  fun_induction behind graph pending found with
  | case1 found => simp
  | case2 found net rest none ih =>
    intro other member
    rcases List.mem_cons.mp member with rfl | member
    · exact (settled_of_find?_eq_none none).mono (subset_behind graph rest found)
    · exact ih other member
  | case3 found net rest edge fresh ih =>
    exact fun other member => ih other (List.mem_append_right _ member)

theorem closedBut_behind (closed : graph.ClosedBut pending found) :
    graph.ClosedBut [] (graph.behind pending found) := by
  fun_induction behind graph pending found with
  | case1 found => exact closed
  | case2 found net rest none ih =>
    refine ih fun device member source read => ?_
    rcases closed device member source read with waits | settled
    · rcases List.mem_cons.mp waits with rfl | waits
      · exact .inr (settled_of_find?_eq_none none)
      · exact .inl waits
    · exact .inr settled
  | case3 found net rest edge fresh ih =>
    refine ih fun device member source read => ?_
    rcases List.mem_cons.mp member with rfl | member
    · exact .inl (List.mem_append_left _ read)
    · rcases closed device member source read with waits | settled
      · exact .inl (List.mem_append_right _ waits)
      · exact .inr (settled.mono (List.subset_cons_self _ _))

theorem LeadsTo.of_driver {edge : Edge} {net : NetId} (member : edge ∈ graph.edgesAt net .output) :
    graph.LeadsTo edge.device net :=
  ⟨net, ⟨edge, member, rfl⟩, .refl⟩

theorem LeadsTo.feeds {device : DeviceId} {source net : NetId} (leads : graph.LeadsTo device source)
    (feeds : graph.Feeds source net) : graph.LeadsTo device net := by
  obtain ⟨target, drives, chain⟩ := leads
  exact ⟨target, drives, chain.tail feeds⟩

theorem behind_sound {device : DeviceId} (member : device ∈ graph.behind pending found) :
    device ∈ found ∨ ∃ net ∈ pending, graph.LeadsTo device net := by
  fun_induction behind graph pending found with
  | case1 found => exact .inl member
  | case2 found net rest none ih =>
    exact (ih member).imp_right fun ⟨other, waits, leads⟩ =>
      ⟨other, List.mem_cons_of_mem _ waits, leads⟩
  | case3 found net rest edge fresh ih =>
    have drives := List.mem_of_find?_eq_some fresh
    rcases ih member with known | ⟨other, waits, leads⟩
    · rcases List.mem_cons.mp known with rfl | known
      · exact .inr ⟨net, List.mem_cons_self, .of_driver drives⟩
      · exact .inl known
    · rcases List.mem_append.mp waits with read | waits
      · exact .inr ⟨net, List.mem_cons_self, leads.feeds ⟨edge, drives, read⟩⟩
      · exact .inr ⟨other, waits, leads⟩

theorem settled_of_chain {target net : NetId} (chain : Relation.ReflTransGen graph.Feeds target net) :
    graph.Settled (graph.behind [net] []) target := by
  have closed : graph.ClosedBut [net] [] := by simp [ClosedBut]
  induction chain using Relation.ReflTransGen.head_induction_on with
  | refl => exact behind_settles graph [net] [] net List.mem_cons_self
  | head feeds _ ih =>
    obtain ⟨edge, drives, read⟩ := feeds
    have settled := closedBut_behind closed edge.device (ih edge drives) _ read
    exact settled.resolve_left List.not_mem_nil

/-- The search from one net finds exactly the devices that lead to it. -/
theorem mem_behind_iff {device : DeviceId} {net : NetId} :
    device ∈ graph.behind [net] [] ↔ graph.LeadsTo device net := by
  constructor
  · intro member
    obtain found | ⟨other, waits, leads⟩ := behind_sound member
    · contradiction
    · exact List.mem_singleton.mp waits ▸ leads
  · rintro ⟨target, ⟨edge, drives, rfl⟩, chain⟩
    exact settled_of_chain chain edge drives

end Connectivity

/-! ### Dependence in a design -/

namespace Design

/-- A device that drives the target looks at the source. -/
def Feeds (design : Design) (looksAt : Device → NetId → Prop) (source target : NetId) : Prop :=
  ∃ id device, design.device? id = some device ∧ looksAt device source ∧ device.Writes target

/-- The device drives the net, or a net that feeds it in any number of steps. -/
def DependsOn (design : Design) (looksAt : Device → NetId → Prop) (net : NetId) (id : DeviceId) :
    Prop :=
  ∃ device target, design.device? id = some device ∧ device.Writes target ∧
    Relation.ReflTransGen (design.Feeds looksAt) target net

variable {design : Design} {looksAt looksAt' : Device → NetId → Prop} {net source : NetId}
  {id : DeviceId}

theorem DependsOn.mono (wider : ∀ device source, looksAt device source → looksAt' device source)
    (depends : design.DependsOn looksAt net id) : design.DependsOn looksAt' net id := by
  obtain ⟨device, target, stored, writes, chain⟩ := depends
  refine ⟨device, target, stored, writes, Relation.ReflTransGen.mono ?_ _ _ chain⟩
  rintro source target ⟨id, device, stored, looks, writes⟩
  exact ⟨id, device, stored, wider device source looks, writes⟩

/-- A net depends on what drives the nets that its drivers, near and far, look at. -/
theorem DependsOn.behind {reader : Device} (depends : design.DependsOn looksAt net id)
    (stored : design.device? id = some reader) (looks : looksAt reader source) {driver : Device}
    {driverId : DeviceId} (stored' : design.device? driverId = some driver)
    (writes : driver.Writes source) : design.DependsOn looksAt net driverId := by
  obtain ⟨device, target, found, writesTarget, chain⟩ := depends
  obtain rfl := Option.some.inj (stored.symm.trans found)
  exact ⟨driver, source, stored', writes, chain.head ⟨id, reader, stored, looks, writesTarget⟩⟩

end Design

namespace Connectivity

variable {design : Design} (numbered : ∀ {id device}, design.device? id = some device → device.id = id)
include numbered

theorem mem_sources_ofDesign {id : DeviceId} {source : NetId} :
    source ∈ (ofDesign design).sources id ↔
      ∃ device, design.device? id = some device ∧ device.Reads source := by
  simp only [sources, List.mem_map, List.mem_filter, mem_edges_ofDesign numbered,
    Bool.and_eq_true, beq_iff_eq]
  constructor
  · rintro ⟨edge, ⟨⟨device, stored, pin, connected, _, direction, net⟩, rfl, input⟩, rfl⟩
    exact ⟨device, stored, pin, connected, direction.trans input, net⟩
  · rintro ⟨device, stored, pin, connected, input, rfl⟩
    exact ⟨⟨id, pin.ref.net, pin.pin, pin.direction⟩,
      ⟨⟨device, stored, pin, connected, rfl, rfl, rfl⟩, rfl, input⟩, rfl⟩

theorem drives_ofDesign {id : DeviceId} {net : NetId} :
    (∃ edge ∈ (ofDesign design).edgesAt net .output, edge.device = id) ↔
      ∃ device, design.device? id = some device ∧ device.Writes net := by
  simp only [edgesAt, List.mem_filter, mem_edges_ofDesign numbered, Bool.and_eq_true, beq_iff_eq]
  constructor
  · rintro ⟨edge, ⟨⟨device, stored, pin, connected, _, direction, net⟩, rfl, output⟩, rfl⟩
    exact ⟨device, stored, pin, connected, direction.trans output, net⟩
  · rintro ⟨device, stored, pin, connected, output, rfl⟩
    exact ⟨⟨id, pin.ref.net, pin.pin, pin.direction⟩,
      ⟨⟨device, stored, pin, connected, rfl, rfl, rfl⟩, rfl, output⟩, rfl⟩

theorem feeds_ofDesign : (ofDesign design).Feeds = design.Feeds Device.Reads := by
  funext source target
  apply propext
  constructor
  · rintro ⟨edge, member, read⟩
    obtain ⟨device, stored, writes⟩ := (drives_ofDesign numbered).mp ⟨edge, member, rfl⟩
    obtain ⟨device', stored', reads⟩ := (mem_sources_ofDesign numbered).mp read
    obtain rfl := Option.some.inj (stored.symm.trans stored')
    exact ⟨edge.device, device, stored, reads, writes⟩
  · rintro ⟨id, device, stored, reads, writes⟩
    obtain ⟨edge, member, rfl⟩ := (drives_ofDesign numbered).mpr ⟨device, stored, writes⟩
    exact ⟨edge, member, (mem_sources_ofDesign numbered).mpr ⟨device, stored, reads⟩⟩

/-- The cone of a net holds the devices on which it depends through pins. -/
theorem mem_cone_iff {id : DeviceId} {net : NetId} :
    id ∈ (ofDesign design).cone net ↔ design.DependsOn Device.Reads net id := by
  rw [cone, mem_ascending, mem_behind_iff, LeadsTo, feeds_ofDesign numbered]
  simp only [drives_ofDesign numbered]
  constructor
  · rintro ⟨⟨target, ⟨device, stored, writes⟩, chain⟩, _⟩
    exact ⟨device, target, stored, writes, chain⟩
  · rintro ⟨device, target, stored, writes, chain⟩
    exact ⟨⟨target, ⟨device, stored, writes⟩, chain⟩, (Array.getElem?_eq_some_iff.mp stored).1⟩

end Connectivity

end NetSynth
