import NetSynth.Proofs.Addresses
import NetSynth.Proofs.DeclaredNames

/-! What the declaration of a memory makes: one net for each index with the name of that index, and
after them the net of the memory. -/
namespace NetSynth

namespace Design

variable {before mid after design : Design} {id : NetId} {scope : ScopeId} {type : ValueType}
  {text : String} {texts texts' : List String}

/-- Names keep their texts, and the nets that were there change in nothing but the pins on them. -/
structure Retains (before after : Design) : Prop where
  names : before.names.Extends after.names
  nets : ∀ {id net}, before.net? id = some net →
    ∃ endpoints, after.net? id = some { net with endpoints }

theorem Retains.refl (design : Design) : design.Retains design :=
  ⟨List.prefix_refl _, fun known => ⟨_, known⟩⟩

theorem Retains.trans (first : before.Retains mid) (second : mid.Retains after) :
    before.Retains after where
  names := first.names.trans second.names
  nets := by
    intro id net known
    obtain ⟨_, found⟩ := first.nets known
    obtain ⟨_, later⟩ := second.nets found
    exact ⟨_, later⟩

theorem Grows.retains (grown : before.Grows after) : before.Retains after where
  names := grown.names
  nets := fun known =>
    have ⟨_, later, _⟩ := grown.nets known
    ⟨_, later⟩

/-- The user declared the net in the scope, with the name and the type. -/
def Declared (design : Design) (id : NetId) (scope : ScopeId) (text : String) (type : ValueType) :
    Prop :=
  ∃ net, design.net? id = some net ∧ net.origin = .declared ∧ net.scope = scope ∧
    net.toValueType = type ∧ design.names.text? net.name = some text

theorem Declared.retained (declared : before.Declared id scope text type)
    (kept : before.Retains after) : after.Declared id scope text type := by
  obtain ⟨net, known, origin, place, types, named⟩ := declared
  obtain ⟨_, later⟩ := kept.nets known
  exact ⟨_, later, origin, place, types, kept.names.text? named⟩

/-- The later design has one more declared net for each text, under the next numbers. -/
structure AddsSignals (before after : Design) (scope : ScopeId) (type : ValueType)
    (texts : List String) : Prop where
  kept : before.Retains after
  count : after.nets.size = before.nets.size + texts.length
  declared : ∀ {place text}, texts[place]? = some text →
    after.Declared ⟨before.nets.size + place⟩ scope text type

theorem AddsSignals.none (design : Design) (scope : ScopeId) (type : ValueType) :
    design.AddsSignals design scope type [] :=
  ⟨.refl design, rfl, fun known => by simp at known⟩

theorem AddsSignals.append (first : before.AddsSignals mid scope type texts)
    (second : mid.AddsSignals after scope type texts') :
    before.AddsSignals after scope type (texts ++ texts') where
  kept := first.kept.trans second.kept
  count := by rw [second.count, first.count, List.length_append, Nat.add_assoc]
  declared := by
    intro place text known
    by_cases old : place < texts.length
    · rw [List.getElem?_append_left old] at known
      exact (first.declared known).retained second.kept
    · have beyond := Nat.le_of_not_lt old
      rw [List.getElem?_append_right beyond] at known
      have declared := second.declared known
      rwa [first.count, Nat.add_assoc, Nat.add_sub_cancel' beyond] at declared

theorem retains_intern (design : Design) (text : String) :
    design.Retains (design.intern text).2 :=
  ⟨NameTable.intern_extends _ _, fun known => ⟨_, known⟩⟩

theorem retains_pushNet (design : Design) (scope : ScopeId) (name : Name) (origin : NetOrigin)
    (type : ValueType) (isLocal : Bool) (span : Span) :
    design.Retains (design.pushNet scope name origin type isLocal span).2 where
  names := List.prefix_refl _
  nets := by
    intro id net known
    have inside := design.net?_lt known
    exact ⟨_, by rw [net?_pushNet, if_neg (by omega), known]⟩

theorem addsSignals_one (design : Design) (scope : ScopeId) (text : String) (type : ValueType)
    (span : Span) :
    let named := design.intern text
    design.AddsSignals (named.2.pushNet scope named.1 .declared type false span).2 scope type
      [text] := by
  intro named
  refine ⟨(design.retains_intern text).trans (named.2.retains_pushNet _ _ _ _ _ _), ?_, ?_⟩
  · simp [Design.pushNet, named, Design.intern]
  · intro place found known
    obtain ⟨rfl, rfl⟩ : place = 0 ∧ text = found := by
      cases place <;> simp_all
    have stored := (named.2.net?_pushNet scope named.1 .declared type false span _).trans
      (if_pos rfl)
    exact ⟨_, stored, rfl, rfl, rfl, NameTable.text?_intern _ _⟩

end Design

namespace Build

open Design (AddsSignals)

variable {design : Design}

theorem ends_addSignal_adds (scope : ScopeId) (text : String) {type : ValueType} (span : Span)
    (narrow : (type.domain.isReal && type.width != 1) = false) :
    (addSignal scope text type span).Ends design (fun id after =>
      id = ⟨design.nets.size⟩ ∧ design.AddsSignals after scope type [text]) fun _ => False := by
  rw [addSignal, ends_bind]
  refine (ends_addNet _ _ _ _ _ _).mpr ?_
  rw [narrow, if_neg Bool.false_ne_true]
  exact ⟨rfl, design.addsSignals_one scope text type span⟩

theorem ends_mapM_addSignal (scope : ScopeId) (nameOf : Int → String) {type : ValueType}
    (span : Span) (narrow : (type.domain.isReal && type.width != 1) = false) (indexes : List Int) :
    (indexes.mapM fun index => addSignal scope (nameOf index) type span).Ends design
      (fun ids after => ids = (List.range' design.nets.size indexes.length).map NetId.mk ∧
        design.AddsSignals after scope type (indexes.map nameOf)) fun _ => False := by
  induction indexes generalizing design with
  | nil => exact ⟨rfl, .none design scope type⟩
  | cons index rest ih =>
    rw [List.mapM_cons, ends_bind]
    apply (ends_addSignal_adds scope (nameOf index) span narrow).mono
    rintro id mid ⟨rfl, first⟩
    rw [ends_bind]
    apply ih.mono
    rintro ids after ⟨rfl, more⟩
    refine ⟨?_, first.append more⟩
    rw [first.count]
    rfl

end Build

namespace MemoryWords

variable (start : Nat) (first last : Int)

theorem length_indexes : (indexes first last).length = (last - first).natAbs + 1 := by
  simp [indexes]

/-- The words of a memory whose nets have the numbers from `start` on, one for each index. -/
def placed : MemoryWords :=
  ⟨first, last, ((List.range' start (indexes first last).length).map NetId.mk).toArray⟩

@[simp] theorem size_placed :
    (placed start first last).words.size = (indexes first last).length := by
  simp [placed]

theorem filled_placed : (placed start first last).Filled := by
  rw [Filled, size_placed, length_indexes]
  rfl

/-- The word of a declared index has the number of its address, counted from `start`. -/
theorem word?_placed {index : Int} {address : Nat}
    (found : (placed start first last).address? index = some address) :
    (placed start first last).word? index = some ⟨start + address⟩ := by
  have inside := (address?_eq_some_iff.mp found).1
  rw [size_placed] at inside
  rw [word?, found, Option.bind_some]
  simp [placed, inside]

theorem mem_placed {id : NetId} : id ∈ (placed start first last).words ↔
    start ≤ id.index ∧ id.index < start + (indexes first last).length := by
  obtain ⟨number⟩ := id
  simp [placed]

/-- The words are different nets, and none of them has the number after the last. -/
theorem nodup_placed : (⟨start + (indexes first last).length⟩ ::
    (placed start first last).words.toList : List NetId).Nodup := by
  rw [List.nodup_cons]
  constructor
  · simp [placed]
  · apply List.Nodup.map _ (List.nodup_range' ..)
    intro place place' same
    exact congrArg NetId.index same

end MemoryWords

namespace Design

open MemoryWords (indexes placed filled_placed)

variable {before after design : Design} {id : NetId} {scope : ScopeId} {type : ValueType}
  {text : String} {start : Nat} {first last : Int}

/-- A memory as its declaration left it. The nets from number `start` on are its words, each with
the name of its index, and the net after them names the memory. -/
structure HoldsMemory (design : Design) (start : Nat) (scope : ScopeId) (text : String)
    (type : ValueType) (first last : Int) : Prop where
  named : design.Declared ⟨start + (indexes first last).length⟩ scope text type
  memory : ∃ net, design.net? ⟨start + (indexes first last).length⟩ = some net ∧
    net.memory = some (placed start first last)
  words : ∀ {index address}, (placed start first last).address? index = some address →
    design.Declared ⟨start + address⟩ scope (wordText text index) type

theorem HoldsMemory.retained (holds : before.HoldsMemory start scope text type first last)
    (kept : before.Retains after) : after.HoldsMemory start scope text type first last where
  named := holds.named.retained kept
  memory := by
    obtain ⟨net, known, named⟩ := holds.memory
    obtain ⟨_, later⟩ := kept.nets known
    exact ⟨_, later, named⟩
  words := fun found => (holds.words found).retained kept

theorem HoldsMemory.word (holds : design.HoldsMemory start scope text type first last) {index : Int}
    (declared : (placed start first last).Declares index) :
    (placed start first last).word? index = some ⟨start + (index - first).natAbs⟩ ∧
      design.Declared ⟨start + (index - first).natAbs⟩ scope (wordText text index) type := by
  obtain ⟨address, _, found⟩ :=
    (MemoryWords.enumerates (filled_placed start first last)).inside declared
  obtain rfl := MemoryWords.address?_eq_natAbs found
  exact ⟨MemoryWords.word?_placed _ _ _ found, holds.words found⟩

theorem Declared.nameMemory (declared : design.Declared id scope text type) (memory : NetId)
    (words : MemoryWords) : (design.nameMemory memory words).Declared id scope text type := by
  obtain ⟨net, known, described⟩ := declared
  refine ⟨_, by rw [net?_nameMemory, known, Option.map_some], ?_⟩
  split <;> exact described

theorem Retains.nameMemory (kept : before.Retains after) {memory : NetId}
    (new : before.nets.size ≤ memory.index) (words : MemoryWords) :
    before.Retains (after.nameMemory memory words) where
  names := kept.names
  nets := by
    intro id net known
    obtain ⟨_, later⟩ := kept.nets known
    have inside := before.net?_lt known
    have other : id ≠ memory := by
      rintro rfl
      omega
    exact ⟨_, by rw [net?_nameMemory, later, Option.map_some, if_neg other]⟩

theorem AddsSignals.holdsMemory (adds : before.AddsSignals after scope type
      ((indexes first last).map (wordText text) ++ [text])) :
    (after.nameMemory ⟨before.nets.size + (indexes first last).length⟩
      (placed before.nets.size first last)).HoldsMemory before.nets.size scope text type first
        last := by
  have named : after.Declared ⟨before.nets.size + (indexes first last).length⟩ scope text type := by
    apply adds.declared
    rw [List.getElem?_append_right (by simp)]
    simp
  constructor
  · exact named.nameMemory _ _
  · obtain ⟨net, known, _⟩ := named
    exact ⟨_, by rw [net?_nameMemory, known, Option.map_some, if_pos rfl], rfl⟩
  · intro index address found
    have listed := (MemoryWords.getElem?_indexes (filled_placed _ _ _)).mpr found
    have inside := (List.getElem?_eq_some_iff.mp listed).1
    apply (adds.declared _).nameMemory
    rw [List.getElem?_append_left (by rwa [List.length_map]), List.getElem?_map]
    exact congrArg (Option.map (wordText text)) listed

end Design

/-- A declared memory holds one net for each index, and nothing else is made. -/
theorem Build.ends_addMemory_holds {design : Design} (scope : ScopeId) (text : String) (width : Nat)
    (signed : Bool) (first last : Int) (span : Span) :
    (addMemory scope text width signed first last span).Ends design (fun memory after =>
      memory = ⟨design.nets.size + (MemoryWords.indexes first last).length⟩ ∧
        design.Retains after ∧
        after.nets.size = design.nets.size + (MemoryWords.indexes first last).length + 1 ∧
        after.HoldsMemory design.nets.size scope text (.vector width signed) first last)
      fun _ => False := by
  rw [addMemory, ends_bind]
  apply (ends_mapM_addSignal scope (wordText text) span rfl _).mono
  rintro ids mid ⟨rfl, words⟩
  rw [ends_bind]
  apply (ends_addSignal_adds scope text span rfl).mono
  rintro memory after ⟨rfl, named⟩
  have adds := words.append named
  have count := adds.count
  rw [words.count, List.length_map]
  rw [List.length_append, List.length_map] at count
  refine ⟨rfl, adds.kept.nameMemory (Nat.le_add_right _ _) _, ?_, adds.holdsMemory⟩
  exact Array.size_modify.trans count

theorem Build.runOn_addMemory (design : Design) (scope : ScopeId) (text : String) (width : Nat)
    (signed : Bool) (first last : Int) (span : Span) : ∃ after,
    (addMemory scope text width signed first last span).runOn design =
      (.ok ⟨design.nets.size + (MemoryWords.indexes first last).length⟩, after) ∧
    design.Retains after ∧
    after.nets.size = design.nets.size + (MemoryWords.indexes first last).length + 1 ∧
    after.HoldsMemory design.nets.size scope text (.vector width signed) first last := by
  obtain ⟨_, after, ran, rfl, made⟩ :=
    (@ends_addMemory_holds design scope text width signed first last span).succeeds
  exact ⟨after, ran, made⟩

/-- What a declaration adds to a design: the net of a memory and one for each declared index, all of
them different and with the declared type, and no other net. -/
structure Design.GainsMemory (before after : Design) (memory : NetId) (words : MemoryWords)
    (scope : ScopeId) (text : String) (type : ValueType) : Prop where
  stored : ∃ net, after.net? memory = some net ∧ net.memory = some words
  count : words.words.size = (words.last - words.first).natAbs + 1
  distinct : (memory :: words.words.toList).Nodup
  new : ∀ {id}, id ∈ memory :: words.words.toList ↔
    before.net? id = none ∧ (after.net? id).isSome
  named : after.Declared memory scope text type
  words : ∀ {index}, words.Declares index → ∃ word, words.word? index = some word ∧
    word ∈ words.words ∧ after.Declared word scope (wordText text index) type

theorem Design.HoldsMemory.gains {before after : Design} {scope : ScopeId} {text : String}
    {type : ValueType} {first last : Int}
    (holds : after.HoldsMemory before.nets.size scope text type first last)
    (count : after.nets.size = before.nets.size + (MemoryWords.indexes first last).length + 1) :
    before.GainsMemory after ⟨before.nets.size + (MemoryWords.indexes first last).length⟩
      (.placed before.nets.size first last) scope text type where
  stored := holds.memory
  count := MemoryWords.filled_placed ..
  distinct := MemoryWords.nodup_placed ..
  new := by
    rintro ⟨number⟩
    have old : before.net? ⟨number⟩ = none ↔ before.nets.size ≤ number := Array.getElem?_eq_none_iff
    have present : (after.net? ⟨number⟩).isSome ↔ number < after.nets.size := by
      simp [Design.net?]
    rw [old, present, count, List.mem_cons, Array.mem_toList_iff, MemoryWords.mem_placed,
      NetId.mk.injEq]
    dsimp only
    omega
  named := holds.named
  words := by
    intro index declared
    obtain ⟨found, named⟩ := holds.word declared
    obtain ⟨_, _, listed⟩ := Option.bind_eq_some_iff.mp found
    exact ⟨_, found, Array.mem_of_getElem? listed, named⟩

/-- A memory of fewer than `2 ^ 31` steps is declared with one net for each index, and addressing is
a bijection between the indexes and the places of these nets, the first index at the first place.
The arithmetic of sixty-four bits that makes and looks up the words tells the same words and
addresses for every index, with bounds at the ends of that range too. -/
theorem memory_addressing_bijective (design : Design) (scope : ScopeId) (text : String)
    (width : Nat) (signed : Bool) (first last : BitVec 64) (span : Span)
    (near : (last.toInt - first.toInt).natAbs < 2 ^ 31) :
    ∃ memory words after,
      (Build.addMemory scope text width signed first.toInt last.toInt span).runOn design =
        (.ok memory, after) ∧
      words.first = first.toInt ∧ words.last = last.toInt ∧
      design.GainsMemory after memory words scope text (.vector width signed) ∧
      words.Enumerates ∧ Machine.Serves first last words := by
  obtain ⟨after, ran, _, count, holds⟩ :=
    Build.runOn_addMemory design scope text width signed first.toInt last.toInt span
  have filled := MemoryWords.filled_placed design.nets.size first.toInt last.toInt
  refine ⟨_, _, after, ran, rfl, rfl, holds.gains count, MemoryWords.enumerates filled,
    Machine.serves rfl rfl filled ?_⟩
  rw [MemoryWords.size_placed, MemoryWords.length_indexes]
  omega

/-- Three words that count down from the largest integer of sixty-four bits. -/
theorem memory_addressing_bijective_largest :
    let first : BitVec 64 := 0x7FFFFFFFFFFFFFFF
    let last : BitVec 64 := 0x7FFFFFFFFFFFFFFD
    ∃ memory, ∃ words : MemoryWords, ∃ after,
      (Build.addMemory .root "m" 8 true first.toInt last.toInt .nowhere).runOn (.empty "top") =
        (.ok memory, after) ∧
      words.address? 0x7FFFFFFFFFFFFFFF = some 0 ∧
      (∃ word, words.word? 0x7FFFFFFFFFFFFFFD = some word ∧
        after.Declared word .root "m[9223372036854775805]" (.vector 8 true)) ∧
      Machine.address? first last (-5) words.words.size = none := by
  intro first last
  have near : (last.toInt - first.toInt).natAbs < 2 ^ 31 := by decide
  obtain ⟨memory, words, after, ran, isFirst, isLast, gains, enumerates, serves⟩ :=
    memory_addressing_bijective (.empty "top") .root "m" 8 true first last .nowhere near
  have declares : ∀ index, words.Declares index ↔ min first.toInt last.toInt ≤ index ∧
      index ≤ max first.toInt last.toInt := by
    intro index
    rw [MemoryWords.Declares, isFirst, isLast]
  have top : words.first = 0x7FFFFFFFFFFFFFFF := isFirst.trans (by decide)
  refine ⟨memory, words, after, ran, ?_, ?_, ?_⟩
  · exact top ▸ enumerates.first
  · obtain ⟨word, found, _, named⟩ := gains.words ((declares 0x7FFFFFFFFFFFFFFD).mpr (by decide))
    exact ⟨word, found, named⟩
  · rw [serves.address]
    exact (enumerates.outside (mt (declares _).mp (by decide))).1

end NetSynth
