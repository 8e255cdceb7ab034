import NetSynth.Proofs.Cone

/-! What the search behind a net makes of memories. A reader of a memory has no pins for the words, so
the search goes on from its address alone. It finds all that a net depends on only if it comes across
the drivers of the words in another way. -/
namespace NetSynth

namespace Design

def WordOf (design : Design) (memory word : NetId) : Prop :=
  ∃ net words, design.net? memory = some net ∧ net.memory = some words ∧ word ∈ words.words

/-- The device puts a word of a memory on its output, and any word may be the one. -/
def ReadsWord (design : Design) (device : Device) (word : NetId) : Prop :=
  ∃ memory words width addressWidth, device.kind = .memoryRead memory words width addressWidth ∧
    design.WordOf memory word

/-- The output of the device may depend on the net, through a pin or through a memory. -/
def Consults (design : Design) (device : Device) (net : NetId) : Prop :=
  device.Reads net ∨ design.ReadsWord device net

/-- What drives a word that one of the devices may read is among the devices. -/
def CoversWords (design : Design) (devices : List DeviceId) : Prop :=
  ∀ id ∈ devices, ∀ reader, design.device? id = some reader → ∀ word, design.ReadsWord reader word →
    ∀ driverId driver, design.device? driverId = some driver → driver.Writes word →
      driverId ∈ devices

def WordsUndriven (design : Design) : Prop :=
  ∀ ⦃id device memory word⦄, design.device? id = some device → design.WordOf memory word →
    ¬device.Writes word

variable {design before after : Design}

theorem WordsUndriven.coversWords (undriven : design.WordsUndriven) (devices : List DeviceId) :
    design.CoversWords devices := by
  rintro _ _ reader _ word ⟨memory, _, _, _, _, isWord⟩ driverId driver stored writes
  exact absurd writes (undriven stored isWord)

end Design

namespace Connectivity

open Design (CoversWords)

variable {design : Design} (numbered : ∀ {id device}, design.device? id = some device → device.id = id)
include numbered

/-- Backwards along a chain of what devices consult, all drivers are in the cone if it covers the
words. -/
theorem drivers_mem_cone {net target : NetId}
    (covers : design.CoversWords ((ofDesign design).cone net))
    (chain : Relation.ReflTransGen (design.Feeds design.Consults) target net) :
    ∀ {id device}, design.device? id = some device → device.Writes target →
      id ∈ (ofDesign design).cone net := by
  induction chain using Relation.ReflTransGen.head_induction_on with
  | refl =>
    intro id device stored writes
    exact (mem_cone_iff numbered).mpr ⟨device, net, stored, writes, .refl⟩
  | head feeds _ ih =>
    intro id device stored writes
    obtain ⟨readerId, reader, onReader, consults, writesTarget⟩ := feeds
    have inside := ih onReader writesTarget
    rcases consults with reads | readsWord
    · have depends := (mem_cone_iff numbered).mp inside
      exact (mem_cone_iff numbered).mpr (depends.behind onReader reads stored writes)
    · exact covers readerId inside reader onReader _ readsWord id device stored writes

/-- The cone of a net is complete where it covers the words of the memories that it reads, and only
there. -/
theorem cone_complete_iff {net : NetId} :
    (∀ id, design.DependsOn design.Consults net id → id ∈ (ofDesign design).cone net) ↔
      design.CoversWords ((ofDesign design).cone net) := by
  constructor
  · intro complete id inside reader onReader word readsWord driverId driver stored writes
    have depends : design.DependsOn design.Consults net id :=
      ((mem_cone_iff numbered).mp inside).mono fun _ _ => Or.inl
    exact complete driverId (depends.behind onReader (.inr readsWord) stored writes)
  · rintro covers id ⟨device, target, stored, writes, chain⟩
    exact drivers_mem_cone numbered covers chain stored writes

end Connectivity

namespace Design

variable {design before after : Design}

theorem synthesized_steps (calls : List (SynthesisSettings × Expr)) (design : Design) :
    design.Steps (design.synthesized calls).2 := by
  induction calls generalizing design with
  | nil => exact .refl
  | cons call rest ih =>
    obtain ⟨settings, expr⟩ := call
    exact (@Build.moves_synthesize design settings expr).steps.trans (ih _)

theorem Grows.wordOf (grown : before.Grows after) {memory word : NetId}
    (isWord : after.WordOf memory word) : before.WordOf memory word := by
  obtain ⟨net, words, known, named, member⟩ := isWord
  cases found : before.net? memory with
  | none => simp [(grown.newNets found known).2.2] at named
  | some old =>
    obtain ⟨net', known', _, _, same⟩ := grown.net found
    obtain rfl := Option.some.inj (known.symm.trans known')
    exact ⟨old, words, found, same ▸ named, member⟩

theorem Records.driver_of_writes (records : design.Records) {net : NetId} {found : Net}
    (known : design.net? net = some found) {id : DeviceId} {device : Device}
    (stored : design.device? id = some device) (directed : device.Directed)
    (writes : device.Writes net) : ∃ endpoint ∈ found.drivers, endpoint.device = device.id := by
  obtain ⟨connection, connected, output, onNet⟩ := directed.writes_iff.mp writes
  refine ⟨⟨device.id, connection.pin⟩, List.mem_filter.mpr ⟨?_, by simp [output]⟩, rfl⟩
  rw [records known, pinsOf]
  refine List.mem_flatMap.mpr ⟨device, Array.mem_toList_iff.mpr (Array.mem_of_getElem? stored), ?_⟩
  exact List.mem_map.mpr ⟨connection, List.mem_filter.mpr ⟨connected, by simp [onNet]⟩, rfl⟩

theorem WordsUndriven.synthesized (undriven : design.WordsUndriven) (valid : design.WellFormed)
    (records : design.Records) (calls : List (SynthesisSettings × Expr)) :
    (design.synthesized calls).2.WordsUndriven := by
  obtain ⟨grown, once, _⟩ := Wiring.synthesized_wires calls design
  have steps := synthesized_steps calls design
  have laterRecords := steps.records valid records
  have laterValid := steps.wellFormed valid
  intro id device memory word stored isWord writes
  have wasWord := grown.wordOf isWord
  obtain ⟨net, words, known, named, member⟩ := wasWord
  obtain ⟨old, found, _⟩ := (valid.words known named).nets word member
  obtain ⟨later, foundLater, same⟩ := once.kept found
  -- The word keeps its drivers, so the device was there before.
  obtain ⟨endpoint, listed, sameDevice⟩ := laterRecords.driver_of_writes foundLater stored
    (laterValid.directed stored) writes
  rw [same] at listed
  rw [laterValid.deviceId stored] at sameDevice
  have noted : endpoint ∈ design.pinsOf word :=
    records found ▸ (List.mem_filter.mp listed).1
  have inside := valid.device_lt_of_mem_pinsOf noted
  rw [sameDevice] at inside
  have before : design.device? id = some design.devices[id.index] := Array.getElem?_eq_getElem inside
  have earlier := before.trans ((grown.device before).symm.trans stored)
  exact undriven earlier ⟨net, words, known, named, member⟩ writes

end Design

/-- The cone of a net holds exactly what the net depends on through pins. It holds all that the net
depends on if and only if, with a reader of a memory, it holds what drives the words of the memory.
That is so where no device drives a word, and synthesis leaves it so. -/
theorem cone_accounts_for_memories_iff (rootName : String) (commands : List Command) :
    let design := Design.reached rootName commands
    (∀ net, let cone := (Connectivity.ofDesign design).cone net
      (∀ id, id ∈ cone ↔ design.DependsOn Device.Reads net id) ∧
      ((∀ id, id ∈ cone ↔ design.DependsOn design.Consults net id) ↔ design.CoversWords cone)) ∧
    (design.WordsUndriven → ∀ calls net id, let after := (design.synthesized calls).2
      id ∈ (Connectivity.ofDesign after).cone net ↔ after.DependsOn after.Consults net id) := by
  intro design
  have complete : ∀ {design : Design}, design.WellFormed → ∀ net,
      (∀ id, id ∈ (Connectivity.ofDesign design).cone net ↔
        design.DependsOn design.Consults net id) ↔
          design.CoversWords ((Connectivity.ofDesign design).cone net) := by
    intro design valid net
    rw [← Connectivity.cone_complete_iff valid.deviceId]
    refine forall_congr' fun id => ⟨Iff.mpr, fun complete => ⟨fun inside => ?_, complete⟩⟩
    exact ((Connectivity.mem_cone_iff valid.deviceId).mp inside).mono fun _ _ => Or.inl
  have valid := reached_wellFormed rootName commands
  refine ⟨fun net => ⟨fun id => Connectivity.mem_cone_iff valid.deviceId, complete valid net⟩, ?_⟩
  intro undriven calls net
  have later := (design.synthesized_steps calls).wellFormed valid
  have undriven := undriven.synthesized valid (Design.reached_records rootName commands) calls
  exact (complete later net).mpr (undriven.coversWords _)

theorem cone_accounts_for_memories_undriven :
    let design := Design.reached "top" [.addMemory .root "m" 4 false 0 1 .nowhere,
      .addSignal .root "i" .bit .nowhere]
    let read := Expr.word ⟨.vector 4 false, .nowhere⟩ ⟨2⟩ (.signal ⟨.bit, .nowhere⟩ ⟨3⟩)
    let after := (design.synthesized [({}, read)]).2
    let cone := (Connectivity.ofDesign after).cone ⟨4⟩
    design.WordsUndriven ∧ ⟨0⟩ ∈ cone ∧ ∀ id, id ∈ cone ↔ after.DependsOn after.Consults ⟨4⟩ id := by
  intro design read after cone
  have undriven : design.WordsUndriven := fun id device _ _ stored => by
    simp [Design.device?, show design.devices = #[] from rfl] at stored
  have complete := (cone_accounts_for_memories_iff "top" _).2 undriven [({}, read)] ⟨4⟩
  refine ⟨undriven, (complete ⟨0⟩).mpr ⟨_, ⟨4⟩, rfl, ?_, .refl⟩, complete⟩
  exact ⟨⟨⟨.result, .whole ⟨4⟩⟩, .output⟩, List.mem_cons_of_mem _ List.mem_cons_self, rfl, rfl⟩

/-- A reader of a memory is in the cone of its output, and the device that drives the first word of
the memory is not. -/
theorem cone_misses_driven_word :
    let design := Design.reached "top" [.addMemory .root "m" 4 false 0 1 .nowhere,
      .addSignal .root "i" .bit .nowhere,
      .addDevice .root (.constant (Bits.ofNat 5 4)) [⟨.output, .whole ⟨0⟩⟩] .nowhere,
      .synthesize {} (.word ⟨.vector 4 false, .nowhere⟩ ⟨2⟩ (.signal ⟨.bit, .nowhere⟩ ⟨3⟩))]
    let cone := (Connectivity.ofDesign design).cone ⟨4⟩
    (∃ reader, design.device? ⟨1⟩ = some reader ∧ design.ReadsWord reader ⟨0⟩) ∧
      (∃ driver, design.device? ⟨0⟩ = some driver ∧ driver.Writes ⟨0⟩) ∧ ⟨1⟩ ∈ cone ∧ ⟨0⟩ ∉ cone := by
  intro design cone
  have numbered : ∀ {id device}, design.device? id = some device → device.id = id :=
    (reached_wellFormed "top" _).deviceId
  have unread : ∀ device ∈ design.devices, ∀ pin ∈ device.pins,
      pin.direction = .input → pin.ref.net ≠ ⟨0⟩ := by decide +kernel
  have writers : ∀ pin ∈ ((design.device? ⟨0⟩).map (·.pins)).getD [],
      pin.direction = .output → pin.ref.net = ⟨0⟩ := by decide +kernel
  have memory : (design.net? ⟨2⟩).bind (·.memory) = some ⟨0, 1, #[⟨0⟩, ⟨1⟩]⟩ := by decide +kernel
  obtain ⟨net, known, named⟩ := Option.bind_eq_some_iff.mp memory
  refine ⟨⟨_, rfl, ⟨2⟩, 2, 4, 1, rfl, net, _, known, named, by simp⟩,
    ⟨_, rfl, ⟨⟨.output, .whole ⟨0⟩⟩, .output⟩, List.mem_singleton_self _, rfl, rfl⟩, ?_, ?_⟩
  · refine (Connectivity.mem_cone_iff numbered).mpr ⟨_, ⟨4⟩, rfl, ?_, .refl⟩
    exact ⟨⟨⟨.result, .whole ⟨4⟩⟩, .output⟩, List.mem_cons_of_mem _ List.mem_cons_self, rfl, rfl⟩
  · rw [Connectivity.mem_cone_iff numbered]
    rintro ⟨driver, target, stored, ⟨written, member, output, rfl⟩, chain⟩
    rw [stored] at writers
    have first := writers written member output
    rcases chain.cases_head with same | ⟨_, ⟨id, device, onDevice, ⟨pin, connected, input, net⟩, _⟩, _⟩
    · rw [first] at same
      exact absurd same (by decide)
    · exact unread device (Array.mem_of_getElem? onDevice) pin connected input (net.trans first)

end NetSynth
