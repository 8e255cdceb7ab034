import NetSynth.Proofs.Cone

/-! The devices behind a net by a depth-first search over the nodes of the graph, against its edges.
The search ends on every graph, whatever loops and parallel edges there are, and the devices that it
meets are those from which chains of pins lead to the net. -/
namespace NetSynth

namespace FlowGraph

/-- An edge leads from the one node to the other. -/
def Leads (graph : FlowGraph) (source target : Connectivity.Node) : Prop :=
  ∃ arrow ∈ graph.arrows, arrow.source = source ∧ arrow.target = target

/-- The list holds the nodes from which edges lead to the start, in any number of steps, and each of
them once. -/
structure Meets (graph : FlowGraph) (start : Connectivity.Node) (met : List Connectivity.Node) :
    Prop where
  mem_iff : ∀ {node}, node ∈ met ↔ Relation.ReflTransGen graph.Leads node start
  nodup : met.Nodup

/-- The devices among the nodes that a traversal from the net comes to, sorted. -/
def cone (graph : FlowGraph) (traverse : Connectivity.Node → List Connectivity.Node) (net : NetId) :
    List DeviceId :=
  if .net net ∈ graph.nodes then
    ((traverse (.net net)).filterMap deviceOf?).mergeSort (·.index ≤ ·.index)
  else []

def unmet (graph : FlowGraph) (met : List Connectivity.Node) : List Connectivity.Node :=
  graph.nodes.filter (· ∉ met)

variable {graph : FlowGraph} {node source target start : Connectivity.Node}
  {pending met : List Connectivity.Node}

theorem unmet_lt (fresh : node ∈ graph.unmet met) :
    (graph.unmet (met ++ [node])).length < (graph.unmet met).length := by
  have fewer : graph.unmet (met ++ [node]) = (graph.unmet met).filter (· ≠ node) := by
    simp only [unmet, List.filter_filter]
    congr 1
    funext other
    by_cases same : other = node <;> simp [same]
  rw [fewer, List.length_filter_lt_length_iff_exists]
  exact ⟨node, fresh, by simp⟩

def preceding (graph : FlowGraph) (node : Connectivity.Node) : List Connectivity.Node :=
  (graph.arrows.filter (·.target = node)).map (·.source)

/-- Takes one node after the other from a stack. A node that was not met is met now, and those
before it go on the stack. -/
def search (graph : FlowGraph) (pending met : List Connectivity.Node) : List Connectivity.Node :=
  match pending with
  | [] => met
  | node :: rest =>
      if _ : node ∈ graph.unmet met then
        search graph ((graph.preceding node).filter (· ∉ met ++ [node]) ++ rest) (met ++ [node])
      else search graph rest met
termination_by ((graph.unmet met).length, pending.length)
decreasing_by
  · exact Prod.Lex.left _ _ (unmet_lt ‹_›)
  · exact Prod.Lex.right _ (Nat.lt_succ_self _)

theorem mem_unmet : node ∈ graph.unmet met ↔ node ∈ graph.nodes ∧ node ∉ met := by
  simp [unmet]

theorem met_of_not_unmet (present : node ∈ graph.nodes) (old : node ∉ graph.unmet met) :
    node ∈ met := by
  by_contra fresh
  exact old (mem_unmet.mpr ⟨present, fresh⟩)

theorem mem_preceding : source ∈ graph.preceding target ↔ graph.Leads source target := by
  simp only [preceding, Leads, List.mem_map, List.mem_filter, decide_eq_true_eq]
  constructor
  · rintro ⟨arrow, ⟨member, same⟩, rfl⟩
    exact ⟨arrow, member, rfl, same⟩
  · rintro ⟨arrow, member, rfl, same⟩
    exact ⟨arrow, ⟨member, same⟩, rfl⟩

theorem subset_search (graph : FlowGraph) (pending met : List Connectivity.Node) :
    met ⊆ graph.search pending met := by
  fun_induction search graph pending met with
  | case1 met => exact List.Subset.refl met
  | case2 met node rest fresh ih =>
    exact fun other member => ih (List.mem_append_left _ member)
  | case3 met node rest old ih => exact ih

theorem search_nodup (distinct : met.Nodup) : (graph.search pending met).Nodup := by
  fun_induction search graph pending met with
  | case1 met => exact distinct
  | case2 met node rest fresh ih =>
    exact ih (List.nodup_append.mpr ⟨distinct, List.nodup_singleton node, by
      rintro other member _ last rfl
      exact (mem_unmet.mp fresh).2 (List.mem_singleton.mp last ▸ member)⟩)
  | case3 met node rest old ih => exact ih distinct

theorem search_sound
    (waits : ∀ node ∈ pending, Relation.ReflTransGen graph.Leads node start)
    (found : ∀ node ∈ met, Relation.ReflTransGen graph.Leads node start) :
    ∀ node ∈ graph.search pending met, Relation.ReflTransGen graph.Leads node start := by
  fun_induction search graph pending met with
  | case1 met => exact found
  | case2 met node rest fresh ih =>
    have here := waits node List.mem_cons_self
    refine ih ?_ ?_
    · intro other member
      rcases List.mem_append.mp member with member | member
      · exact .head (mem_preceding.mp (List.mem_of_mem_filter member)) here
      · exact waits other (List.mem_cons_of_mem _ member)
    · intro other member
      rcases List.mem_append.mp member with member | member
      · exact found other member
      · exact List.mem_singleton.mp member ▸ here
  | case3 met node rest old ih =>
    exact ih (fun other member => waits other (List.mem_cons_of_mem _ member)) found

/-- What leads to a node that was met was met too, or it waits on the stack. -/
def ClosedBut (graph : FlowGraph) (pending met : List Connectivity.Node) : Prop :=
  ∀ target ∈ met, ∀ source, graph.Leads source target → source ∈ pending ∨ source ∈ met

theorem mem_further : source ∈ (graph.preceding node).filter (· ∉ met ++ [node]) ↔
    graph.Leads source node ∧ source ∉ met ++ [node] := by
  rw [List.mem_filter, mem_preceding, decide_eq_true_eq]

theorem ClosedBut.drop {rest : List Connectivity.Node} (closed : graph.ClosedBut (node :: rest) met)
    (known : node ∈ met) : graph.ClosedBut rest met := by
  intro target member source leads
  rcases closed target member source leads with waiting | found
  · rcases List.mem_cons.mp waiting with rfl | waiting
    · exact .inr known
    · exact .inl waiting
  · exact .inr found

theorem ClosedBut.meet {rest : List Connectivity.Node}
    (closed : graph.ClosedBut (node :: rest) met) : graph.ClosedBut
      ((graph.preceding node).filter (· ∉ met ++ [node]) ++ rest) (met ++ [node]) := by
  intro target member source leads
  by_cases known : source ∈ met ++ [node]
  · exact .inr known
  · left
    rw [List.mem_append] at known member ⊢
    rcases member with member | member
    · rcases closed target member source leads with waiting | found
      · rcases List.mem_cons.mp waiting with rfl | waiting
        · exact absurd (.inr (List.mem_singleton_self _)) known
        · exact .inr waiting
      · exact absurd (.inl found) known
    · obtain rfl := List.mem_singleton.mp member
      exact .inl (mem_further.mpr ⟨leads, mt List.mem_append.mp known⟩)

section Closed

variable (closed : ∀ {source target}, graph.Leads source target → source ∈ graph.nodes)
include closed

theorem further_present {rest : List Connectivity.Node}
    (present : ∀ other ∈ node :: rest, other ∈ graph.nodes) :
    ∀ other ∈ (graph.preceding node).filter (· ∉ met ++ [node]) ++ rest,
      other ∈ graph.nodes := by
  intro other member
  rcases List.mem_append.mp member with member | member
  · exact closed (mem_further.mp member).1
  · exact present other (List.mem_cons_of_mem _ member)

/-- The nodes of the graph that wait on the stack are met. -/
theorem search_meets (present : ∀ node ∈ pending, node ∈ graph.nodes) :
    ∀ node ∈ pending, node ∈ graph.search pending met := by
  fun_induction search graph pending met with
  | case1 met => simp
  | case2 met node rest fresh ih =>
    intro other member
    rcases List.mem_cons.mp member with rfl | member
    · exact subset_search graph _ _ (List.mem_append_right _ (List.mem_singleton_self _))
    · exact ih (further_present closed present) other (List.mem_append_right _ member)
  | case3 met node rest old ih =>
    intro other member
    rcases List.mem_cons.mp member with rfl | member
    · exact subset_search graph rest met (met_of_not_unmet (present other List.mem_cons_self) old)
    · exact ih (fun other member => present other (List.mem_cons_of_mem _ member)) other member

theorem closedBut_search (present : ∀ node ∈ pending, node ∈ graph.nodes)
    (waits : graph.ClosedBut pending met) : graph.ClosedBut [] (graph.search pending met) := by
  fun_induction search graph pending met with
  | case1 met => exact waits
  | case2 met node rest fresh ih => exact ih (further_present closed present) waits.meet
  | case3 met node rest old ih =>
    have known := met_of_not_unmet (present node List.mem_cons_self) old
    exact ih (fun other member => present other (List.mem_cons_of_mem _ member)) (waits.drop known)

/-- The search from one node meets exactly the nodes that lead to it. -/
theorem meets_search (present : start ∈ graph.nodes) :
    graph.Meets start (graph.search [start] []) where
  mem_iff := by
    intro node
    have known : ∀ node ∈ [start], node ∈ graph.nodes := by simpa using present
    have settled := closedBut_search closed known (show graph.ClosedBut [start] [] by
      simp [ClosedBut])
    constructor
    · exact search_sound (by simpa using .refl) (by simp) node
    · intro chain
      induction chain using Relation.ReflTransGen.head_induction_on with
      | refl => exact search_meets closed known start (List.mem_singleton_self _)
      | head leads _ found =>
        exact (settled _ found _ leads).resolve_left List.not_mem_nil
  nodup := search_nodup List.nodup_nil

end Closed

/-! ### Graphs of designs -/

section Design

variable {design : Design} (valid : design.WellFormed) (shown : graph.Shows design)
include valid shown

theorem leads_iff : graph.Leads source target ↔ ∃ id device, design.device? id = some device ∧
    ∃ net, device.Reads net ∧ source = .net net ∧ target = .device id ∨
      device.Writes net ∧ source = .device id ∧ target = .net net := by
  rw [Leads, shown.arrows]
  constructor
  · rintro ⟨arrow, member, rfl, rfl⟩
    obtain ⟨device, listed, pins⟩ := List.mem_flatMap.mp member
    obtain ⟨pin, connected, rfl⟩ := List.mem_map.mp pins
    obtain ⟨id, stored⟩ := Design.device_stored listed
    refine ⟨id, device, stored, pin.ref.net, ?_⟩
    rw [valid.deviceId stored]
    cases direction : pin.direction with
    | input => exact .inl ⟨⟨pin, connected, direction, rfl⟩, by simp [Arrow.ofPin, direction]⟩
    | output => exact .inr ⟨⟨pin, connected, direction, rfl⟩, by simp [Arrow.ofPin, direction]⟩
  · rintro ⟨id, device, stored, net, pins⟩
    have listed : device ∈ design.devices.toList :=
      Array.mem_toList_iff.mpr (Array.mem_of_getElem? stored)
    have shows : ∀ pin ∈ device.pins, Arrow.ofPin id pin ∈
        design.devices.toList.flatMap fun device => device.pins.map (.ofPin device.id) := by
      intro pin connected
      refine List.mem_flatMap.mpr ⟨device, listed, List.mem_map.mpr ⟨pin, connected, ?_⟩⟩
      rw [valid.deviceId stored]
    rcases pins with ⟨⟨pin, connected, direction, rfl⟩, rfl, rfl⟩ |
      ⟨⟨pin, connected, direction, rfl⟩, rfl, rfl⟩
    · exact ⟨_, shows pin connected, by simp [Arrow.ofPin, direction]⟩
    · exact ⟨_, shows pin connected, by simp [Arrow.ofPin, direction]⟩

theorem leads_device_net {id : DeviceId} {net : NetId} :
    graph.Leads (.device id) (.net net) ↔
      ∃ device, design.device? id = some device ∧ device.Writes net := by
  rw [leads_iff valid shown]
  constructor
  · rintro ⟨_, device, stored, _, ⟨_, none, _⟩ | ⟨writes, same, same'⟩⟩
    · cases none
    · cases same
      cases same'
      exact ⟨device, stored, writes⟩
  · rintro ⟨device, stored, writes⟩
    exact ⟨id, device, stored, net, .inr ⟨writes, rfl, rfl⟩⟩

theorem leads_net_device {id : DeviceId} {net : NetId} :
    graph.Leads (.net net) (.device id) ↔
      ∃ device, design.device? id = some device ∧ device.Reads net := by
  rw [leads_iff valid shown]
  constructor
  · rintro ⟨_, device, stored, _, ⟨reads, same, same'⟩ | ⟨_, none, _⟩⟩
    · cases same
      cases same'
      exact ⟨device, stored, reads⟩
    · cases none
  · rintro ⟨device, stored, reads⟩
    exact ⟨id, device, stored, net, .inl ⟨reads, rfl, rfl⟩⟩

theorem chain_of_feeds {near far : NetId}
    (chain : Relation.ReflTransGen (design.Feeds Device.Reads) near far) :
    Relation.ReflTransGen graph.Leads (.net near) (.net far) := by
  induction chain with
  | refl => exact .refl
  | tail _ feeds ih =>
    obtain ⟨id, device, stored, reads, writes⟩ := feeds
    have into := (leads_net_device valid shown).mpr ⟨device, stored, reads⟩
    exact (ih.tail into).tail ((leads_device_net valid shown).mpr ⟨device, stored, writes⟩)

omit valid shown in
/-- What a chain of edges from a node to the net says of the node. -/
def Behind (design : Design) (net : NetId) : Connectivity.Node → Prop
  | .net source => Relation.ReflTransGen (design.Feeds Device.Reads) source net
  | .device id => design.DependsOn Device.Reads net id

theorem behind_of_chain {net : NetId} (chain : Relation.ReflTransGen graph.Leads node (.net net)) :
    Behind design net node := by
  induction chain using Relation.ReflTransGen.head_induction_on with
  | refl => exact .refl
  | head leads _ ih =>
    obtain ⟨id, device, stored, between, ⟨reads, rfl, rfl⟩ | ⟨writes, rfl, rfl⟩⟩ :=
      (leads_iff valid shown).mp leads
    · obtain ⟨reader, target, stored', writes, chain⟩ := ih
      obtain rfl := Option.some.inj (stored.symm.trans stored')
      exact chain.head ⟨id, device, stored, reads, writes⟩
    · exact ⟨device, between, stored, writes, ih⟩

/-- Edges lead from a device to a net if and only if the net depends on the device. -/
theorem chain_iff_dependsOn {id : DeviceId} {net : NetId} :
    Relation.ReflTransGen graph.Leads (.device id) (.net net) ↔
      design.DependsOn Device.Reads net id := by
  constructor
  · exact behind_of_chain valid shown
  · rintro ⟨device, target, stored, writes, chain⟩
    exact (chain_of_feeds valid shown chain).head
      ((leads_device_net valid shown).mpr ⟨device, stored, writes⟩)

theorem leads_present (leads : graph.Leads source target) :
    source ∈ graph.nodes ∧ target ∈ graph.nodes := by
  obtain ⟨id, device, stored, net, pins⟩ := (leads_iff valid shown).mp leads
  have listed : device ∈ design.devices.toList :=
    Array.mem_toList_iff.mpr (Array.mem_of_getElem? stored)
  have deviceNode : .device id ∈ graph.nodes := by
    rw [shown.nodes]
    refine List.mem_append_right _ (List.mem_map.mpr ⟨id.index, List.mem_range.mpr ?_, rfl⟩)
    exact (Array.getElem?_eq_some_iff.mp stored).1
  have netNode : ∀ pin ∈ device.pins, .net pin.ref.net ∈ graph.nodes := by
    intro pin connected
    obtain ⟨found, known⟩ := valid.connected listed connected
    exact shown.net_mem.mpr (design.net?_lt known)
  rcases pins with ⟨⟨pin, connected, _, rfl⟩, rfl, rfl⟩ | ⟨⟨pin, connected, _, rfl⟩, rfl, rfl⟩
  · exact ⟨netNode pin connected, deviceNode⟩
  · exact ⟨deviceNode, netNode pin connected⟩

theorem net_present {id : DeviceId} {net : NetId}
    (depends : design.DependsOn Device.Reads net id) : .net net ∈ graph.nodes := by
  have chain := (chain_iff_dependsOn valid shown).mpr depends
  obtain same | ⟨_, _, leads⟩ := chain.cases_tail
  · cases same
  · exact (leads_present valid shown leads).2

theorem mem_cone_iff {traverse : Connectivity.Node → List Connectivity.Node} {net : NetId}
    (meets : .net net ∈ graph.nodes → graph.Meets (.net net) (traverse (.net net)))
    {id : DeviceId} : id ∈ graph.cone traverse net ↔ design.DependsOn Device.Reads net id := by
  rw [cone]
  split
  · rename_i present
    have found : id ∈ (traverse (.net net)).filterMap deviceOf? ↔
        .device id ∈ traverse (.net net) := by
      rw [List.mem_filterMap]
      constructor
      · rintro ⟨_ | _, member, same⟩
        · cases same
        · cases same
          exact member
      · exact fun member => ⟨_, member, rfl⟩
    rw [List.mem_mergeSort, found, (meets present).mem_iff, chain_iff_dependsOn valid shown]
  · rename_i absent
    exact iff_of_false List.not_mem_nil (mt (net_present valid shown) absent)

omit valid shown in
theorem cone_pairwise {traverse : Connectivity.Node → List Connectivity.Node} {net : NetId}
    (meets : .net net ∈ graph.nodes → graph.Meets (.net net) (traverse (.net net))) :
    (graph.cone traverse net).Pairwise (·.index < ·.index) := by
  rw [cone]
  split
  · rename_i present
    have distinct : ((traverse (.net net)).filterMap deviceOf?).Nodup := by
      apply (meets present).nodup.filterMap
      rintro (_ | _) (_ | _) _ same same' <;> simp_all [deviceOf?]
    have sorted := sorted ((traverse (.net net)).filterMap deviceOf?)
    have nodup := (List.mergeSort_perm ((traverse (.net net)).filterMap deviceOf?)
      (·.index ≤ ·.index)).nodup_iff.mpr distinct
    apply (sorted.and nodup).imp
    rintro first second ⟨le, other⟩
    exact Nat.lt_of_le_of_ne le fun same => other (congrArg DeviceId.mk same)
  · exact .nil

end Design

end FlowGraph

/-- The cone of a net is exact in every design that requests reach, loops of devices and nets with
several drivers included. The graph can be built, and a search of it ends with the nodes that lead
to the net. However they are met, the devices among them make the cone, which lists, in ascending
order, the devices with a chain of pins from an output to the net. So it is empty for an unknown
net, and it contains the cone of every net that its devices read. -/
theorem cone_reaches_exactly (rootName : String) (commands : List Command) :
    let design := Design.reached rootName commands
    let cone := (Connectivity.ofDesign design).cone
    ∃ graph, FlowGraph.ofDesign? design = .ok graph ∧
      (∀ start ∈ graph.nodes, graph.Meets start (graph.search [start] [])) ∧
      ∀ net,
        (∀ traverse, (∀ start ∈ graph.nodes, graph.Meets start (traverse start)) →
          graph.cone traverse net = cone net) ∧
        (∀ id, id ∈ cone net ↔ design.DependsOn Device.Reads net id) ∧
        (cone net).Pairwise (·.index < ·.index) ∧
        (design.net? net = none → cone net = []) ∧
        ∀ id ∈ cone net, ∀ device source, design.device? id = some device →
          device.Reads source → cone source ⊆ cone net := by
  intro design cone
  have valid : design.WellFormed := (Design.reached_steps rootName commands).wellFormed
    (Design.wellFormed_empty rootName)
  obtain ⟨graph, built, shown⟩ := FlowGraph.exists_ofDesign? valid
  have exact : ∀ {net id}, id ∈ cone net ↔ design.DependsOn Device.Reads net id :=
    Connectivity.mem_cone_iff valid.deviceId
  have ascending : ∀ net, (cone net).Pairwise (·.index < ·.index) :=
    fun net => Connectivity.ascending_pairwise _ _
  refine ⟨graph, built, fun start => FlowGraph.meets_search fun leads =>
    (FlowGraph.leads_present valid shown leads).1, fun net =>
      ⟨fun traverse meets => ?_, fun id => exact, ascending net, fun absent => ?_, ?_⟩⟩
  · apply FlowGraph.ascending_ext (FlowGraph.cone_pairwise (meets _)) (ascending net)
    intro id
    rw [FlowGraph.mem_cone_iff valid shown (meets _), exact]
  · rw [List.eq_nil_iff_forall_not_mem]
    intro id member
    have present := shown.net_mem.mp (FlowGraph.net_present valid shown (exact.mp member))
    exact absurd present (Nat.not_lt_of_le (Array.getElem?_eq_none_iff.mp absent))
  · intro id member device source stored reads other behind
    obtain ⟨driver, target, stored', writes, chain⟩ := exact.mp behind
    obtain ⟨_, reached, found, writes', rest⟩ := exact.mp member
    obtain rfl := Option.some.inj (stored.symm.trans found)
    exact exact.mpr ⟨driver, target, stored', writes,
      (chain.tail ⟨id, device, stored, reads, writes'⟩).trans rest⟩

/-- Two inverters in a loop, of which a constant drives one net as well, and a third one behind. -/
theorem cone_reaches_exactly_loop :
    let inverter := fun (out source : NetId) => Command.addDevice .root (.logic .not 1 1)
      [⟨.output, .whole out⟩, ⟨.input 0, .whole source⟩] .nowhere
    let design := Design.reached "top" [.addSignal .root "a" .bit .nowhere,
      .addSignal .root "b" .bit .nowhere, .addSignal .root "c" .bit .nowhere,
      inverter ⟨0⟩ ⟨1⟩, inverter ⟨1⟩ ⟨0⟩, inverter ⟨2⟩ ⟨0⟩,
      .addDevice .root (.constant (Bits.ofNat 1 1)) [⟨.output, .whole ⟨0⟩⟩] .nowhere]
    let cone := (Connectivity.ofDesign design).cone
    (∃ graph, FlowGraph.ofDesign? design = .ok graph ∧
      graph.cone (fun start => graph.search [start] []) ⟨2⟩ = cone ⟨2⟩) ∧
      ⟨1⟩ ∈ cone ⟨2⟩ ∧ cone ⟨0⟩ ⊆ cone ⟨2⟩ ∧ cone ⟨3⟩ = [] := by
  intro inverter design cone
  obtain ⟨graph, built, searched, exact⟩ := cone_reaches_exactly "top" [
    .addSignal .root "a" .bit .nowhere, .addSignal .root "b" .bit .nowhere,
    .addSignal .root "c" .bit .nowhere, inverter ⟨0⟩ ⟨1⟩, inverter ⟨1⟩ ⟨0⟩, inverter ⟨2⟩ ⟨0⟩,
    .addDevice .root (.constant (Bits.ofNat 1 1)) [⟨.output, .whole ⟨0⟩⟩] .nowhere]
  have inverts {id : DeviceId} {out source : NetId}
      (listed : (design.device? id).map (·.pins) =
        some [⟨⟨.output, .whole out⟩, .output⟩, ⟨⟨.input 0, .whole source⟩, .input⟩]) :
      ∃ device, design.device? id = some device ∧ device.Reads source ∧ device.Writes out := by
    obtain ⟨device, stored, pins⟩ := Option.map_eq_some_iff.mp listed
    refine ⟨device, stored, ⟨⟨⟨.input 0, .whole source⟩, .input⟩, ?_, rfl, rfl⟩,
      ⟨⟨⟨.output, .whole out⟩, .output⟩, ?_, rfl, rfl⟩⟩
    · simp [pins]
    · simp [pins]
  obtain ⟨d₀, stored₀, reads₀, writes₀⟩ := @inverts ⟨0⟩ ⟨0⟩ ⟨1⟩ (by decide +kernel)
  obtain ⟨d₁, stored₁, _, writes₁⟩ := @inverts ⟨1⟩ ⟨1⟩ ⟨0⟩ (by decide +kernel)
  obtain ⟨d₂, stored₂, reads₂, writes₂⟩ := @inverts ⟨2⟩ ⟨2⟩ ⟨0⟩ (by decide +kernel)
  obtain ⟨traversed, members, _, _, closed⟩ := exact ⟨2⟩
  have absent : design.net? ⟨3⟩ = none := by decide +kernel
  have far : ⟨1⟩ ∈ cone ⟨2⟩ := (members _).mpr ⟨d₁, ⟨1⟩, stored₁, writes₁,
    .head ⟨⟨0⟩, d₀, stored₀, reads₀, writes₀⟩ (.single ⟨⟨2⟩, d₂, stored₂, reads₂, writes₂⟩)⟩
  have near : ⟨2⟩ ∈ cone ⟨2⟩ := (members _).mpr ⟨d₂, ⟨2⟩, stored₂, writes₂, .refl⟩
  exact ⟨⟨graph, built, traversed _ searched⟩, far, closed ⟨2⟩ near d₂ ⟨0⟩ stored₂ reads₂,
    (exact ⟨3⟩).2.2.2.1 absent⟩

end NetSynth
