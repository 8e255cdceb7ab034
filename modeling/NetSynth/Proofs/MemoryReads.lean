import NetSynth.Proofs.Meaning
import NetSynth.Proofs.Numbers
import NetSynth.Proofs.TypeSoundness

/-! The word of a memory at an index that is known beforehand, and at one that a net carries. The
first is looked up at the address of the index; a device takes the index itself for the address. -/
namespace NetSynth

variable {α : Type} {design : Design}

namespace Design

/-- The word that a memory reader puts on its output: that of the net which the memory stores at the
address, if it has the address. -/
def delivered? (design : Design) (words : Valuation) (device : Device) : Option Word := do
  match device.kind with
  | .memoryRead memory .. =>
      let stored ← (← design.net? memory).memory
      let chosen ← stored.words[(pinWord words device.connections .address).value]?
      return words chosen
  | _ => none

end Design

structure Device.ReadsMemory (device : Device) (memory address out : NetId) : Prop where
  kind : ∃ words width addressWidth, device.kind = .memoryRead memory words width addressWidth
  connections : device.connections = [⟨.address, address⟩, ⟨.result, out⟩]

theorem Device.ReadsMemory.delivered? {device : Device} {memory address out : NetId}
    (reads : device.ReadsMemory memory address out) {net : Net} {words : MemoryWords}
    (known : design.net? memory = some net) (named : net.memory = some words)
    (valuation : Valuation) : design.delivered? valuation device =
      words.words[(valuation address).value]?.map valuation := by
  obtain ⟨_, _, _, kind⟩ := reads.kind
  have seen : pinWord valuation device.connections .address = valuation address := by
    rw [reads.connections]
    rfl
  rw [Design.delivered?, kind]
  simp only [known, named, seen, Option.bind_eq_bind, Option.bind_some]
  cases words.words[(valuation address).value]? <;> rfl

namespace MemoryWords

variable {words : MemoryWords} {index : Nat} {fixed : NetId}

/-- An index is its own address where the declared indexes count up from zero, and where they count
down from twice the index. -/
theorem address?_self_iff {address : Nat} (found : words.address? index = some address) :
    index = address ↔
      words.first = 0 ∧ words.first ≤ words.last ∨
        words.last < words.first ∧ words.first = 2 * index := by
  rw [address?, Option.ite_none_right_eq_some] at found
  obtain ⟨inside, same⟩ := found
  have same := Option.some.inj same
  split at inside <;> split at same <;> omega

/-- The net at the address `index` is the word of that index only where the index is its own
address. -/
theorem at_index_iff (distinct : words.words.toList.Nodup)
    (named : words.word? index = some fixed) :
    words.words[index]? = some fixed ↔
      words.first = 0 ∧ words.first ≤ words.last ∨
        words.last < words.first ∧ words.first = 2 * index := by
  obtain ⟨address, found, stored⟩ := Option.bind_eq_some_iff.mp named
  rw [← address?_self_iff found]
  constructor
  · intro atIndex
    rw [← Array.getElem?_toList] at atIndex stored
    obtain ⟨inside, _⟩ := List.getElem?_eq_some_iff.mp atIndex
    exact (List.getElem?_inj inside distinct).mp (atIndex.trans stored.symm)
  · rintro rfl
    exact stored

end MemoryWords

/-- The low bits of a number on every net, as many as the net has. -/
def Design.lowBits (design : Design) (number : Nat) : Valuation := fun id =>
  (List.range (((design.net? id).map (·.width)).getD 0)).map number.testBit

/-- All bits of one net are inverted. -/
def Valuation.invert (words : Valuation) (id : NetId) : Valuation := fun other =>
  if other = id then (words id).map (!·) else words other

namespace Design

theorem sizes_lowBits (design : Design) (number : Nat) :
    design.Sizes (design.lowBits number) := by
  intro id net known
  simp [lowBits, known]

theorem Sizes.invert {valuation : Valuation} (sized : design.Sizes valuation) (id : NetId) :
    design.Sizes (valuation.invert id) := by
  intro other net known
  rw [Valuation.invert]
  split
  · rename_i same
    rw [List.length_map, ← same, sized known]
  · exact sized known

variable {address fixed : NetId} {source : Net} {words : MemoryWords} {index width : Nat}

theorem lowBits_value (known : design.net? address = some source) {number : Nat}
    (fits : number < 2 ^ source.width) : (design.lowBits number address).value = number := by
  simp [lowBits, known, Word.value_testBit, Nat.mod_eq_of_lt fits]

section Delivers

variable (delivers : ∀ valuation, design.Sizes valuation → (valuation address).value = index →
  words.words[(valuation address).value]?.map valuation = some (valuation fixed))
include delivers

/-- A reader that delivers the word of a net by looking at another delivers no bits. One of the two
nets is not that of the address, and its bits could be inverted. -/
theorem eq_nil_of_delivers {chosen : NetId} (found : words.words[index]? = some chosen)
    (other : chosen ≠ fixed) {valuation : Valuation} (sized : design.Sizes valuation)
    (carried : (valuation address).value = index) : valuation fixed = [] := by
  have same : valuation chosen = valuation fixed := by
    simpa [carried, found] using delivers valuation sized carried
  by_cases onFixed : address = fixed
  · have kept : valuation.invert chosen address = valuation address :=
      if_neg fun onChosen => other (onChosen.symm.trans onFixed)
    have again := delivers (valuation.invert chosen) (sized.invert chosen) (by rw [kept, carried])
    rw [kept, carried, found, Option.map_some, Option.some.injEq, Valuation.invert, if_pos rfl,
      Valuation.invert, if_neg other.symm, same] at again
    exact Word.eq_nil_of_map_not again
  · have kept : valuation.invert fixed address = valuation address := if_neg onFixed
    have again := delivers (valuation.invert fixed) (sized.invert fixed) (by rw [kept, carried])
    rw [kept, carried, found, Option.map_some, Option.some.injEq, Valuation.invert, if_neg other,
      Valuation.invert, if_pos rfl, same] at again
    exact Word.eq_nil_of_map_not again.symm

/-- The words that are tried have the low bits of the index on every net. -/
theorem looks_at_of_delivers (onAddress : design.net? address = some source)
    (onFixed : ∃ net, design.net? fixed = some net ∧ net.width = width)
    (fits : index < 2 ^ source.width) :
    width = 0 ∧ index < words.words.size ∨ words.words[index]? = some fixed := by
  have sized := design.sizes_lowBits index
  have carried := design.lowBits_value onAddress fits
  have delivered := delivers _ sized carried
  rw [carried] at delivered
  obtain ⟨chosen, found, _⟩ := Option.map_eq_some_iff.mp delivered
  by_cases looked : chosen = fixed
  · exact .inr (looked ▸ found)
  · obtain ⟨net, known, rfl⟩ := onFixed
    have length := sized known
    rw [eq_nil_of_delivers delivers found looked sized carried] at length
    exact .inl ⟨length.symm, (Array.getElem?_eq_some_iff.mp found).1⟩

end Delivers

/-- A reader delivers the word of a net, whatever words of their widths the nets carry, only if it
looks at that net. Nothing tells words without bits apart, and no index is delivered that is too
large for the net of the address. -/
theorem delivers_iff (onAddress : design.net? address = some source)
    (stored : ∀ id ∈ words.words, ∃ net, design.net? id = some net ∧ net.width = width)
    (member : fixed ∈ words.words) :
    (∀ valuation, design.Sizes valuation → (valuation address).value = index →
      words.words[(valuation address).value]?.map valuation = some (valuation fixed)) ↔
      2 ^ source.width ≤ index ∨ width = 0 ∧ index < words.words.size ∨
        words.words[index]? = some fixed := by
  constructor
  · intro delivers
    rcases Nat.lt_or_ge index (2 ^ source.width) with fits | large
    · exact .inr (looks_at_of_delivers delivers onAddress (stored fixed member) fits)
    · exact .inl large
  · rintro (large | ⟨rfl, inside⟩ | atIndex) valuation sized carried
    · have small := Word.value_lt (valuation address)
      rw [sized onAddress, carried] at small
      exact absurd small (Nat.not_lt_of_le large)
    · have empty : ∀ id ∈ words.words, valuation id = [] := by
        intro id listed
        obtain ⟨net, known, none⟩ := stored id listed
        exact List.eq_nil_of_length_eq_zero ((sized known).trans none)
      rw [carried, Array.getElem?_eq_getElem inside, Option.map_some,
        empty _ (Array.getElem_mem inside), empty fixed member]
    · rw [carried, atIndex, Option.map_some]

end Design

theorem Build.ends_drive_newest (scope : ScopeId) (type : ValueType) (span : Span)
    (kind : DeviceKind) (connections : NetId → List Connection) :
    (Build.drive scope type span fun out => return (kind, connections out)).Ends design
      (fun out after => ∃ device, after.devices.back? = some device ∧ device.kind = kind ∧
        device.connections = connections out) fun _ => True := by
  simp only [Build.drive, Build.ends_bind, Build.ends_addLocal, Build.ends_pure,
    Build.ends_addDevice]
  split
  · trivial
  · split
    · trivial
    · split
      · exact ⟨_, Array.back?_push, rfl, kind.map_connect _⟩
      · trivial

section Word

variable {memory : NetId} {net : Net} {words : MemoryWords}
  (known : design.net? memory = some net) (named : net.memory = some words)
include known named

theorem ends_memoryOf {next : Net × MemoryWords → Attempt α} {done : α → Design → Prop}
    {failed stopped : Design → Prop} :
    (liftM (Rule.memoryOf memory) >>= next).Ends design done failed stopped ↔
      (next (net, words)).Ends design done failed stopped := by
  rw [Attempt.ends_bind, Attempt.ends_liftM]
  simp only [Rule.memoryOf, Build.ends_bind, Build.ends_get, known, named, Build.ends_pure]

theorem runOn_word_constant {indexNode : Node} {bits : Bits} {integer : Int} {fixed : NetId}
    (definite : bits.isDefinite = true) (number : bits.toInt? indexNode.signed = some integer)
    (word : words.word? integer = some fixed) (settings : SynthesisSettings) (node : Node) :
    (synthesize settings (.word node memory (.constant indexNode bits))).runOn design =
      (.ok (some fixed), design) := by
  let index : Operand :=
    ⟨.constant indexNode bits, (Expr.constant indexNode bits).build settings.generation⟩
  have constant : index.expr.constant?.filter Bits.isDefinite = some bits :=
    Option.filter_some_pos definite
  have chosen : (bits.toInt? index.expr.signed).bind words.word? = some fixed :=
    (congrArg (·.bind words.word?) number).trans word
  have ends : (Rule.word node memory index).Ends design
      (fun id after => id = fixed ∧ after = design) (fun _ => False) fun _ => False := by
    rw [Rule.word, ends_memoryOf known named]
    simp only [constant, chosen, Attempt.ends_pure, and_self]
  obtain ⟨_, _, ran, rfl, rfl⟩ | ⟨_, _, failed⟩ | ⟨_, _, _, stopped⟩ := ends.outcome
  · exact ran
  · exact failed.elim
  · exact stopped.elim

/-- For any other index the word is what a memory reader at the net of the index delivers. -/
theorem ends_word_dynamic {node : Node} {index : Operand}
    (dynamic : index.expr.constant?.filter Bits.isDefinite = none) :
    (Rule.word node memory index).Ends design
      (fun out after => ∃ address mid reader,
        index.build.run.runOn design = (.ok (some address), mid) ∧
          after.devices.back? = some reader ∧ reader.ReadsMemory memory address out)
      (fun _ => True) fun _ => True := by
  rw [Rule.word, ends_memoryOf known named]
  simp only [dynamic, Attempt.ends_bind]
  apply (Attempt.ends_ran index.build design).imp
  · intro address mid ran
    rw [Attempt.ends_liftM, Rule.wordAt, Build.ends_bind, Build.ends_net]
    refine ⟨fun source _ => ?_, fun _ => trivial⟩
    apply (Build.ends_drive_newest _ _ _ _ _).imp
    · rintro out after ⟨reader, newest, kind, connections⟩
      exact ⟨address, mid, reader, ran, newest, ⟨_, _, _, kind⟩, connections⟩
    · exact fun _ _ => trivial
  · exact fun _ _ => trivial
  · exact fun _ _ => trivial

end Word

/-- Take an index inside the bounds of a memory. As a definite constant it names the net of its
word, and as the value of a net it becomes the address of a memory reader. The reader delivers the
word of that net, whatever words of their widths the nets carry, if and only if the index is its own
address, words have no bits, or no word on the net of the address is the index. An index is its own
address where the declared indexes count up from zero, and where they count down from twice the
index. -/
theorem memory_reads_agree_iff (rootName : String) (commands : List Command) {memory : NetId}
    {net : Net} {words : MemoryWords}
    (known : (Design.reached rootName commands).net? memory = some net)
    (named : net.memory = some words) {index : Nat} (low : min words.first words.last ≤ index)
    (high : index ≤ max words.first words.last) (settings : SynthesisSettings) (node : Node)
    {indexNode : Node} {bits : Bits} (definite : bits.isDefinite = true)
    (number : bits.toInt? indexNode.signed = some (index : Int)) {expr : Expr}
    (dynamic : expr.constant?.filter Bits.isDefinite = none) {out : NetId} {after : Design}
    (ran : (synthesize settings (.word node memory expr)).runOn
      (Design.reached rootName commands) = (.ok (some out), after)) :
    ∃ fixed address source mid reader,
      (synthesize settings (.word node memory (.constant indexNode bits))).runOn
        (Design.reached rootName commands) =
          (.ok (some fixed), Design.reached rootName commands) ∧
      (synthesize settings expr).runOn (Design.reached rootName commands) =
        (.ok (some address), mid) ∧
      after.devices.back? = some reader ∧ reader.ReadsMemory memory address out ∧
      after.net? address = some source ∧
      ((∀ valuation, after.Sizes valuation → (valuation address).value = index →
          after.delivered? valuation reader = some (valuation fixed)) ↔
        2 ^ source.width ≤ index ∨ net.width = 0 ∧ index < words.words.size ∨
          words.first = 0 ∧ words.first ≤ words.last ∨
          words.last < words.first ∧ words.first = 2 * index) := by
  have steps := Design.reached_steps rootName commands
  have valid := steps.wellFormed (Design.wellFormed_empty rootName)
  have described := valid.words known named
  have distinct := Design.reached_distinctWords rootName commands known named
  generalize Design.reached rootName commands = design at *
  obtain ⟨fixed, member, word⟩ := Typed.word_inside described.count low high
  have constant := runOn_word_constant known named definite number word settings node
  have ends : (Rule.word node memory ⟨expr, expr.build settings.generation⟩).Ends design _ _ _ :=
    ends_word_dynamic known named dynamic
  obtain ⟨address, mid, reader, built, newest, reads⟩ := ends.of_ran ran
  -- The reader looks the memory up in the later design, which has it as it was.
  have grown := ((Build.stepping design).synthesize settings (.word node memory expr)
    (fun _ _ => trivial) .refl).1
  have moved := (@Build.moves_synthesize design settings (.word node memory expr)).steps
  rw [ran] at grown moved
  obtain ⟨net', later, _, _, same⟩ := grown.net known
  have onReader : after.device? ⟨after.devices.size - 1⟩ = some reader := newest
  obtain ⟨source, onAddress⟩ : ∃ source, after.net? address = some source := by
    have connected : ⟨.address, address⟩ ∈ reader.connections := by simp [reads.connections]
    have ⟨source, known, _⟩ := ((moved.wellFormed valid).contract onReader).refs _ connected
    exact ⟨source, known⟩
  have stored : ∀ id ∈ words.words, ∃ found, after.net? id = some found ∧
      found.width = net.width := by
    intro id listed
    obtain ⟨_, present, type, _⟩ := described.nets id listed
    obtain ⟨found, present', type', _⟩ := grown.net present
    exact ⟨found, present', congrArg ValueType.width (type'.trans type)⟩
  refine ⟨fixed, _, source, mid, reader, constant, built, newest, reads, onAddress, ?_⟩
  simp only [reads.delivered? later (same.trans named)]
  rw [Design.delivers_iff onAddress stored member, MemoryWords.at_index_iff distinct word]

theorem memory_reads_agree_middle :
    let design := Design.reached "top" [.addMemory .root "m" 4 false 2 0 .nowhere,
      .addSignal .root "i" (.vector 2 false) .nowhere]
    let read := fun index =>
      (synthesize {} (.word ⟨.vector 4 false, .nowhere⟩ ⟨3⟩ index)).runOn design
    let constant := Expr.constant ⟨.vector 2 false, .nowhere⟩ (Bits.ofNat 1 2)
    let carried := Expr.signal ⟨.vector 2 false, .nowhere⟩ ⟨4⟩
    ∃ fixed reader, (read constant).1 = .ok (some fixed) ∧
      (read carried).2.devices.back? = some reader ∧
      ∀ valuation, (read carried).2.Sizes valuation → (valuation ⟨4⟩).value = 1 →
        (read carried).2.delivered? valuation reader = some (valuation fixed) := by
  intro design read constant carried
  have memory : (design.net? ⟨3⟩).bind (·.memory) = some ⟨2, 0, #[⟨0⟩, ⟨1⟩, ⟨2⟩]⟩ := by
    decide +kernel
  obtain ⟨net, known, named⟩ := Option.bind_eq_some_iff.mp memory
  have result : (read carried).1.toOption = some (some ⟨5⟩) := by decide +kernel
  rcases ran : read carried with ⟨outcome, after⟩
  rw [ran] at result
  cases outcome with
  | error stop => cases result
  | ok built =>
    obtain rfl := Option.some.inj result
    obtain ⟨fixed, address, _, mid, reader, ranConstant, ranIndex, newest, _, _, agree⟩ :=
      @memory_reads_agree_iff "top" _ ⟨3⟩ net _ known named 1 (by decide) (by decide) {} _
        ⟨.vector 2 false, .nowhere⟩ (Bits.ofNat 1 2) (by decide) (by decide) carried rfl _ after ran
    have sameIndex : address = ⟨4⟩ := by cases ranIndex; rfl
    subst sameIndex
    exact ⟨fixed, reader, congrArg Prod.fst ranConstant, newest,
      agree.mpr (.inr (.inr (.inr ⟨by decide, by decide⟩)))⟩

/-- Of two words that count down the reader delivers the other one. -/
theorem memory_reads_differ_descending :
    let design := Design.reached "top" [.addMemory .root "m" 4 false 1 0 .nowhere,
      .addSignal .root "i" (.vector 1 false) .nowhere]
    let read := fun index =>
      (synthesize {} (.word ⟨.vector 4 false, .nowhere⟩ ⟨2⟩ index)).runOn design
    let constant := read (.constant ⟨.vector 1 false, .nowhere⟩ (Bits.ofNat 1 1))
    let carried := read (.signal ⟨.vector 1 false, .nowhere⟩ ⟨3⟩)
    let valuation : Valuation := fun id =>
      if id = ⟨3⟩ then [true] else if id = ⟨0⟩ then .ofInt 4 10 else .ofInt 4 5
    carried.2.Sizes valuation ∧ (valuation ⟨3⟩).value = 1 ∧ constant.1.toOption = some (some ⟨0⟩) ∧
      carried.2.devices.back?.bind (carried.2.delivered? valuation) = some (valuation ⟨1⟩) ∧
      valuation ⟨1⟩ ≠ valuation ⟨0⟩ := by
  decide +kernel

end NetSynth
