import Mathlib.Data.List.Perm.Basic
import NetSynth.Proofs.DeclaredNames

/-! When the nets of a design can be told apart by their names. Devices always can. A net of the user
may take the name of a word of a memory, or a name that a counter hands out later. -/
namespace NetSynth

namespace Command

theorem mem_wordNames {command : Command} {place : ScopeId × String}
    (member : place ∈ command.wordNames) : ∃ text index, place = (place.1, wordText text index) ∧
      (place.1, text) ∈ command.namesPassed := by
  cases command with
  | addMemory scope text width signed first last span =>
    obtain ⟨index, _, rfl⟩ := List.mem_map.mp member
    exact ⟨text, index, rfl, List.mem_singleton_self _⟩
  | _ => simp [wordNames] at member

theorem nodup_indexes (first last : Int) : (MemoryWords.indexes first last).Nodup := by
  refine List.Nodup.map ?_ List.nodup_range
  intro address address' same
  dsimp only at same
  split at same <;> omega

theorem nodup_wordNames (command : Command) : command.wordNames.Nodup := by
  cases command with
  | addMemory scope text width signed first last span =>
    refine (nodup_indexes first last).map fun index index' same => ?_
    exact (wordText_injective (Prod.mk.inj same).2).2
  | _ => exact List.nodup_nil

theorem nodup_flatMap_wordNames {commands : List Command}
    (distinct : (commands.flatMap namesPassed).Nodup) : (commands.flatMap wordNames).Nodup := by
  refine List.nodup_flatMap.mpr ⟨fun command _ => command.nodup_wordNames, ?_⟩
  refine (List.nodup_flatMap.mp distinct).2.imp fun {command command'} apart place onWord onWord' => ?_
  obtain ⟨text, index, same, passed⟩ := mem_wordNames onWord
  obtain ⟨text', index', same', passed'⟩ := mem_wordNames onWord'
  obtain ⟨rfl, _⟩ := wordText_injective (Prod.mk.inj (same.symm.trans same')).2
  exact apart passed passed'

end Command

namespace Design

/-- No two nets of a scope have the same name. -/
def NetNamesUnique (design : Design) : Prop :=
  ∀ {id id' net net'}, design.net? id = some net → design.net? id' = some net' →
    net.scope = net'.scope → net.name = net'.name → id = id'

def DeviceNamesUnique (design : Design) : Prop :=
  ∀ {id id' device device'}, design.device? id = some device → design.device? id' = some device' →
    device.scope = device'.scope → device.name = device'.name → id = id'

variable {design : Design}

theorem LocalNames.placeOf_eq_iff (names : design.LocalNames) {id id' : NetId} {net net' : Net}
    (stored : design.net? id = some net) (stored' : design.net? id' = some net') :
    design.placeOf net = design.placeOf net' ↔ net.scope = net'.scope ∧ net.name = net'.name := by
  obtain ⟨text, known⟩ := names.named stored
  obtain ⟨text', known'⟩ := names.named stored'
  rw [placeOf_of known, placeOf_of known', Prod.mk.injEq]
  refine and_congr_right fun _ => ⟨?_, fun same => ?_⟩
  · rintro rfl
    exact NameTable.name_unique names.distinct known known'
  · exact Option.some.inj (known.symm.trans (same ▸ known'))

/-- Nets of some sort have different places if the place of each tells its number. -/
theorem nodup_places_iff (sort : Net → Bool) :
    ((design.nets.toList.filter sort).map design.placeOf).Nodup ↔
      ∀ {id id' net net'}, design.net? id = some net → design.net? id' = some net' →
        sort net = true → sort net' = true → design.placeOf net = design.placeOf net' → id = id' := by
  rw [List.Nodup, List.pairwise_map, List.pairwise_filter, List.pairwise_iff_getElem]
  constructor
  · intro apart id id' net net' stored stored' onNet onNet' same
    obtain ⟨inside, rfl⟩ := Array.getElem?_eq_some_iff.mp stored
    obtain ⟨inside', rfl⟩ := Array.getElem?_eq_some_iff.mp stored'
    rcases Nat.lt_trichotomy id.index id'.index with lt | eq | gt
    · exact absurd same (apart _ _ (by simpa using inside) (by simpa using inside') lt onNet onNet')
    · exact congrArg NetId.mk eq
    · exact absurd same.symm
        (apart _ _ (by simpa using inside') (by simpa using inside) gt onNet' onNet)
  · intro unique place place' inside inside' lt onNet onNet' same
    have stored : design.net? ⟨place⟩ = some design.nets.toList[place] := by
      simp [net?]
    have stored' : design.net? ⟨place'⟩ = some design.nets.toList[place'] := by
      simp [net?]
    exact Nat.ne_of_lt lt (congrArg NetId.index (unique stored stored' onNet onNet' same))

theorem LocalNames.netNamesUnique_iff (names : design.LocalNames) :
    design.NetNamesUnique ↔ (design.placesOf .declared ++ design.placesOf .implicit).Nodup := by
  have others : ∀ net : Net, (net.origin == .implicit) = !(net.origin == .declared) := by
    intro net
    cases net.origin <;> rfl
  have parts : (design.placesOf .declared ++ design.placesOf .implicit).Perm
      (design.nets.toList.map design.placeOf) := by
    rw [placesOf, placesOf, ← List.map_append]
    simp only [others]
    exact (List.filter_append_perm _ _).map _
  have all := @nodup_places_iff design fun _ => true
  rw [List.filter_true] at all
  rw [parts.nodup_iff, all]
  constructor
  · intro unique id id' net net' stored stored' _ _ same
    obtain ⟨scope, name⟩ := (names.placeOf_eq_iff stored stored').mp same
    exact unique stored stored' scope name
  · intro unique id id' net net' stored stored' scope name
    exact unique stored stored' rfl rfl ((names.placeOf_eq_iff stored stored').mpr ⟨scope, name⟩)

theorem LocalNames.nodup_intermediate (names : design.LocalNames) :
    (design.placesOf .implicit).Nodup := by
  refine (nodup_places_iff _).mpr fun {id id' net net'} stored stored' onNet onNet' same => ?_
  obtain ⟨scope, name⟩ := (names.placeOf_eq_iff stored stored').mp same
  exact names.netsApart stored stored' (eq_of_beq onNet) (eq_of_beq onNet') scope name

theorem LocalNames.mem_intermediate (names : design.LocalNames) {place : ScopeId × String}
    (member : place ∈ design.placesOf .implicit) : ∃ counter, place.2 = localText counter := by
  obtain ⟨net, listed, rfl⟩ := List.mem_map.mp member
  obtain ⟨stored, implicit⟩ := List.mem_filter.mp listed
  obtain ⟨place, stored⟩ := List.mem_iff_getElem?.mp stored
  have stored : design.net? ⟨place⟩ = some net := by simpa [net?] using stored
  obtain ⟨counter, _, text⟩ := names.nets stored (eq_of_beq implicit)
  exact ⟨counter, congrArg Prod.snd (placeOf_of text)⟩

/-- Where names are unique, a look-up by name finds the only net of that name. -/
theorem NetNamesUnique.find?_eq_some_iff (unique : design.NetNamesUnique)
    (names : design.LocalNames) (numbered : ∀ {id net}, design.net? id = some net → net.id = id)
    {scope : ScopeId} {text : String} {id : NetId} : design.find? scope text = some id ↔
      ∃ net, design.net? id = some net ∧ net.scope = scope ∧
        design.names.text? net.name = some text := by
  have numberOf : ∀ {net}, net ∈ design.nets → design.net? net.id = some net := by
    intro net member
    obtain ⟨place, stored⟩ := Array.mem_iff_getElem?.mp member
    have stored : design.net? ⟨place⟩ = some net := stored
    rw [numbered stored, stored]
  simp only [find?, Option.bind_eq_bind, Option.bind_eq_some_iff, Option.pure_def, Option.some.injEq]
  constructor
  · rintro ⟨name, known, net, found, rfl⟩
    have same := Array.find?_some found
    simp only [Bool.and_eq_true, beq_iff_eq] at same
    exact ⟨net, numberOf (Array.mem_of_find?_eq_some found), same.1,
      same.2 ▸ NameTable.text?_of_find? known⟩
  · rintro ⟨net, stored, rfl, known⟩
    refine ⟨net.name, (NameTable.find?_eq_some_iff names.distinct).mpr known, ?_⟩
    have present : (design.nets.find? fun other => other.scope == net.scope &&
        other.name == net.name).isSome := by
      refine Array.find?_isSome.mpr ⟨net, Array.mem_of_getElem? stored, by simp⟩
    obtain ⟨other, found⟩ := Option.isSome_iff_exists.mp present
    have same := Array.find?_some found
    simp only [Bool.and_eq_true, beq_iff_eq] at same
    have first := numberOf (Array.mem_of_find?_eq_some found)
    exact ⟨other, found, unique first stored same.1 same.2⟩

end Design

/-- In a design that requests with different names for nets build, devices have different names. Nets
have too, unless a name that is passed is also that of a word of a memory, or of an intermediate net
made from a counter. With unique names a look-up finds the net that has the name. -/
theorem net_names_unique_iff (rootName : String) (commands : List Command)
    (distinct : (commands.flatMap Command.namesPassed).Nodup) :
    let design := Design.reached rootName commands
    design.DeviceNamesUnique ∧
    (design.NetNamesUnique ↔ ∀ place ∈ commands.flatMap Command.namesPassed,
      place ∉ commands.flatMap Command.wordNames ∧ place ∉ design.placesOf .implicit) ∧
    (∀ place ∈ design.placesOf .implicit, ∃ counter, place.2 = localText counter) ∧
    (design.NetNamesUnique → ∀ scope text id, design.find? scope text = some id ↔
      ∃ net, design.net? id = some net ∧ net.scope = scope ∧
        design.names.text? net.name = some text) := by
  intro design
  obtain ⟨names, places⟩ := Design.reached_declares rootName commands
  have valid := reached_wellFormed rootName commands
  refine ⟨names.devicesApart, ?_, fun _ => names.mem_intermediate, fun unique scope text id =>
    unique.find?_eq_some_iff names valid.netId⟩
  have declared : (design.placesOf .declared).Perm
      (commands.flatMap Command.wordNames ++ commands.flatMap Command.namesPassed) :=
    places ▸ (List.flatMap_append_perm _ _ _).symm
  have words := Command.nodup_flatMap_wordNames distinct
  rw [names.netNamesUnique_iff, (declared.append_right _).nodup_iff, List.nodup_append',
    List.nodup_append']
  constructor
  · rintro ⟨⟨_, _, apart⟩, _, apart'⟩ place passed
    exact ⟨fun onWord => apart onWord passed, apart' (List.mem_append_right _ passed)⟩
  · intro apart
    refine ⟨⟨words, distinct, fun place onWord passed => (apart place passed).1 onWord⟩,
      names.nodup_intermediate, fun place member intermediate => ?_⟩
    rcases List.mem_append.mp member with onWord | passed
    · obtain ⟨command, _, onWord⟩ := List.mem_flatMap.mp onWord
      obtain ⟨text, index, same, _⟩ := Command.mem_wordNames onWord
      obtain ⟨counter, counted⟩ := names.mem_intermediate intermediate
      exact localText_ne_wordText counter text index
        (counted.symm.trans (congrArg Prod.snd same))
    · exact (apart place passed).2 intermediate

/-- A memory, an index and a read of the memory have names that tell them apart, and the memory is
found by its name. -/
theorem net_names_unique_memory_read :
    let commands := [Command.addMemory .root "m" 4 false 1 0 .nowhere,
      .addSignal .root "i" .bit .nowhere,
      .synthesize {} (.word ⟨.vector 4 false, .nowhere⟩ ⟨2⟩ (.signal ⟨.bit, .nowhere⟩ ⟨3⟩))]
    let design := Design.reached "top" commands
    (commands.flatMap Command.namesPassed).Nodup ∧ design.placesOf .implicit = [(.root, "_s0")] ∧
      design.NetNamesUnique ∧ design.find? .root "m" = some ⟨2⟩ ∧ design.DeviceNamesUnique := by
  intro commands design
  have distinct : (commands.flatMap Command.namesPassed).Nodup := by decide +kernel
  have intermediate : design.placesOf .implicit = [(.root, "_s0")] := by decide +kernel
  obtain ⟨devices, nets, _, look⟩ := net_names_unique_iff "top" commands distinct
  have unique : design.NetNamesUnique := nets.mpr (by decide +kernel)
  have memory : (design.net? ⟨2⟩).any (fun net => net.scope == .root &&
      design.names.text? net.name == some "m") = true := by decide +kernel
  obtain ⟨net, stored, named⟩ := (Option.any_eq_true _ _).mp memory
  simp only [Bool.and_eq_true, beq_iff_eq] at named
  exact ⟨distinct, intermediate, unique, (look unique .root "m" ⟨2⟩).mpr ⟨net, stored, named⟩, devices⟩

/-- A signal takes the name that the counter hands out next, or that of a word declared later. -/
theorem net_names_clash :
    let counted := [Command.addSignal .root "_s0" .bit .nowhere, .addLocal .root .bit .nowhere]
    let indexed := [Command.addSignal .root "m[0]" .bit .nowhere,
      .addMemory .root "m" 4 false 0 1 .nowhere]
    let clashes := fun commands => (commands.flatMap Command.namesPassed).Nodup ∧
      ¬(Design.reached "top" commands).NetNamesUnique
    clashes counted ∧ clashes indexed := by
  have clash : ∀ {design : Design} {net net' : Net}, design.net? ⟨0⟩ = some net →
      design.net? ⟨1⟩ = some net' → net.scope = net'.scope ∧ net.name = net'.name →
        ¬design.NetNamesUnique := by
    intro design net net' stored stored' same unique
    exact absurd (unique stored stored' same.1 same.2) (by decide)
  intro counted indexed clashes
  constructor
  · exact ⟨by decide +kernel, clash rfl rfl (by decide +kernel)⟩
  · exact ⟨by decide +kernel, clash rfl rfl (by decide +kernel)⟩

end NetSynth
