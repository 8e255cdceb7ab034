import NetSynth.Proofs.Appending
import NetSynth.Proofs.DeclaredMemories
import NetSynth.Proofs.MemoryReads
import NetSynth.Proofs.PartSelects

/-! Words of a memory at constant indexes: which of them name the net of their word, for memories as
they were declared, whatever requests came after. -/
namespace NetSynth

theorem Design.retains_of_same {before after : Design} (nets : after.nets = before.nets)
    (names : after.names = before.names) : before.Retains after where
  names := names ▸ List.prefix_refl _
  nets := by
    intro id net known
    rw [net?, ← nets] at known
    exact ⟨net.endpoints, known⟩

namespace Build

variable {α : Type} {design : Design}

/-- Whatever the run comes to, the nets of the design stay. -/
def Retains (run : Build α) (design : Design) : Prop :=
  run.Ends design (fun _ after => design.Retains after) design.Retains

theorem retains_discard {run : Build α} : Retains (discard run) design ↔ run.Retains design :=
  ends_discard run

theorem retains_of_builds {run : Build α} {value : Design → α → Prop}
    (builds : design.noting.Builds design run value) : run.Retains design := by
  have kept : design.noting.holds [] design := design.notes_refl
  apply (builds (.refl design) kept).imp
  · exact fun a after ⟨_, noted, _⟩ => noted.toGrows.retains
  · exact fun after ⟨_, noted⟩ => noted.toGrows.retains

theorem addSignal_retains (scope : ScopeId) (text : String) (type : ValueType) (span : Span) :
    (addSignal scope text type span).Retains design := by
  rw [addSignal, Retains, ends_bind]
  refine (ends_addNet _ _ _ _ _ _).mpr ?_
  have named := design.retains_intern text
  split
  · exact named
  · exact named.trans (Design.retains_pushNet _ _ _ _ _ _ _)

theorem addLocal_retains (scope : ScopeId) (type : ValueType) (span : Span) :
    (addLocal scope type span).Retains design := by
  rw [Retains, ends_addLocal]
  split
  · exact .refl design
  · dsimp only
    split
    · exact (design.grows_nameLocal _ _).retains
    · exact (design.grows_localNet _ _ _ _).retains

theorem addDevice_retains (scope : ScopeId) (kind : DeviceKind) (connections : List Connection)
    (span : Span) : (addDevice scope kind connections span).Retains design := by
  rw [Retains, ends_addDevice]
  split
  · exact (design.grows_localDevice _ _ _ _ _).retains
  · exact .refl design

theorem addMemory_retains (scope : ScopeId) (text : String) (width : Nat) (signed : Bool)
    (first last : Int) (span : Span) :
    (addMemory scope text width signed first last span).Retains design :=
  (ends_addMemory_holds scope text width signed first last span).mono fun _ _ gained => gained.2.1

end Build

/-- No request takes the words of a memory away or changes a net's name. -/
theorem Command.run_retains (command : Command) (design : Design) :
    command.run.Retains design := by
  cases command with
  | intern text => exact Build.retains_discard.mpr (design.retains_intern text)
  | report diagnostic => exact Design.retains_of_same rfl rfl
  | takeReports => exact Design.retains_of_same rfl rfl
  | addScope text parent =>
    exact Build.retains_discard.mpr
      ((design.retains_intern text).trans (Design.retains_of_same rfl rfl))
  | addFunction scope result ports =>
    exact Build.retains_discard.mpr (Design.retains_of_same rfl rfl)
  | addSignal scope text type span =>
    exact Build.retains_discard.mpr (Build.addSignal_retains scope text type span)
  | addMemory scope text width signed first last span =>
    exact Build.retains_discard.mpr
      (Build.addMemory_retains scope text width signed first last span)
  | addLocal scope type span =>
    exact Build.retains_discard.mpr (Build.addLocal_retains scope type span)
  | addDevice scope kind connections span =>
    exact Build.retains_discard.mpr (Build.addDevice_retains scope kind connections span)
  | constant scope value signed span =>
    exact Build.retains_discard.mpr
      (Build.retains_of_builds (Discipline.constant scope value signed span))
  | literal value span =>
    exact Build.retains_discard.mpr (Build.retains_of_builds (Discipline.literal value span))
  | extend id width signed span =>
    exact Build.retains_discard.mpr
      (Build.retains_of_builds (Discipline.extend width signed span trivial))
  | pad id width span =>
    exact Build.retains_discard.mpr (Build.retains_of_builds (Discipline.pad width span trivial))
  | crop id width span =>
    exact Build.retains_discard.mpr (Build.retains_of_builds (Discipline.crop width span trivial))
  | synthesize settings expr =>
    exact Build.retains_discard.mpr
      (Build.retains_of_builds (Discipline.request settings expr fun _ _ => trivial))
  | synthesizeAll settings exprs =>
    exact Build.retains_discard.mpr
      (Build.retains_of_builds
        (Conduct.Builds.synthesizeAll fun expr _ =>
          Discipline.request settings expr fun _ _ => trivial))

theorem Command.foldl_retains (commands : List Command) (design : Design) :
    design.Retains (commands.foldl apply design) := by
  induction commands generalizing design with
  | nil => exact .refl design
  | cons command rest ih => exact (command.run_retains design).after.trans (ih _)

/-- An index is judged by its number: inside the bounds it names the net of its word, and nothing is
built; outside it stops the request, which leaves the design as it is. -/
structure Design.JudgesIndex (design : Design) (run : Except Stop (Option NetId) × Design)
    (memory word : NetId) (index : Bits) (inside : Prop) : Prop where
  named : inside → run = (.ok (some word), design)
  refused : ¬inside → run = (.error (.fault (.noWord index memory)), design)

section Word

variable {design : Design} {memory : NetId} {net : Net} {words : MemoryWords}
  (known : design.net? memory = some net) (named : net.memory = some words)
include known named

theorem runOn_memoryOf : (Rule.memoryOf memory).runOn design = (.ok (net, words), design) := by
  have got : (get : Build Design).runOn design = (.ok design, design) := rfl
  rw [Rule.memoryOf, Build.runOn_bind, got]
  dsimp only
  rw [known]
  dsimp only
  rw [named]
  rfl

theorem runOn_word_refused {indexNode : Node} {bits : Bits} (definite : bits.isDefinite = true)
    (absent : (bits.toInt? indexNode.signed).bind words.word? = none)
    (settings : SynthesisSettings) (node : Node) :
    (synthesize settings (.word node memory (.constant indexNode bits))).runOn design =
      (.error (.fault (.noWord bits memory)), design) := by
  let index : Operand :=
    ⟨.constant indexNode bits, (Expr.constant indexNode bits).build settings.generation⟩
  have constant : index.expr.constant?.filter Bits.isDefinite = some bits :=
    Option.filter_some_pos definite
  have refused : (Rule.word node memory index).run.runOn design =
      (.error (.fault (.noWord bits memory)), design) := by
    rw [Rule.word, Attempt.run_bind, Attempt.run_liftM, runOn_memoryOf known named]
    dsimp only
    rw [constant]
    dsimp only
    rw [show (bits.toInt? index.expr.signed).bind words.word? = none from absent]
    rfl
  exact refused

/-- An index is judged as the look-up of its word turns out. -/
theorem judgesIndex {indexNode : Node} {bits : Bits} (definite : bits.isDefinite = true)
    {word : NetId} {inside : Prop}
    (found : inside → (bits.toInt? indexNode.signed).bind words.word? = some word)
    (absent : ¬inside → (bits.toInt? indexNode.signed).bind words.word? = none)
    (settings : SynthesisSettings) (node : Node) :
    design.JudgesIndex
      ((synthesize settings (.word node memory (.constant indexNode bits))).runOn design)
      memory word bits inside where
  named := by
    intro between
    obtain ⟨_, read, stored⟩ := Option.bind_eq_some_iff.mp (found between)
    exact runOn_word_constant known named definite read stored settings node
  refused := fun outside => runOn_word_refused known named definite (absent outside) settings node

end Word

/-- The look-up at a definite index is exact where sixty-four bits hold the index and the bounds. A
longer index finds no word. -/
theorem MemoryWords.toInt?_bind_word? {words : MemoryWords} (filled : words.Filled)
    (fitsFirst : FitsInt64 words.first) (fitsLast : FitsInt64 words.last) {bits : Bits}
    (definite : bits.isDefinite = true) (signed : Bool) :
    (bits.toInt? signed).bind words.word? =
      if bits.width ≤ 64 then words.word? (bits.number signed) else none := by
  rw [Bits.toInt?_of_definite definite]
  by_cases narrow : bits.width ≤ 64
  · rw [if_pos narrow]
    by_cases fits : FitsInt64 (bits.number signed)
    · rw [if_pos ⟨narrow, fits⟩, Option.bind_some]
    · have outside : ¬words.Declares (bits.number signed) := by
        intro inside
        unfold Declares at inside
        unfold FitsInt64 at fits fitsFirst fitsLast
        omega
      rw [if_neg fun short => fits short.2, Option.bind_none,
        ((enumerates filled).outside outside).2]
  · rw [if_neg narrow, if_neg fun short => narrow short.1, Option.bind_none]

/-- A definite constant index of a memory that was declared before, with any requests in between, is
judged by its number if and only if it is no longer than sixty-four bits or lies outside the bounds.
A longer one is refused, although inside the bounds its word is there. -/
theorem constant_indexes_judged_iff {before mid : Design} {scope : ScopeId} {text : String}
    {width : Nat} {signed : Bool} {first last : BitVec 64} {span : Span} {memory : NetId}
    (declared : (Build.addMemory scope text width signed first.toInt last.toInt span).runOn before =
      (.ok memory, mid))
    (commands : List Command) (settings : SynthesisSettings) (node indexNode : Node) {index : Bits}
    (definite : index.isDefinite = true) :
    let design := commands.foldl Command.apply mid
    let run := (synthesize settings (.word node memory (.constant indexNode index))).runOn design
    let number := index.number indexNode.signed
    let word : NetId := ⟨before.nets.size + (number - first.toInt).natAbs⟩
    let inside := min first.toInt last.toInt ≤ number ∧ number ≤ max first.toInt last.toInt
    (inside → design.Declared word scope (wordText text number) (.vector width signed)) ∧
    (design.JudgesIndex run memory word index inside ↔ (inside → index.width ≤ 64)) ∧
    (64 < index.width → run = (.error (.fault (.noWord index memory)), design)) := by
  intro design run number word inside
  obtain ⟨_, ran, _, _, made⟩ :=
    Build.runOn_addMemory before scope text width signed first.toInt last.toInt span
  rw [declared] at ran
  obtain ⟨isMemory, rfl⟩ := Prod.mk.inj ran
  have isMemory := Except.ok.inj isMemory
  have holds : design.HoldsMemory before.nets.size scope text _ first.toInt last.toInt :=
    made.retained (Command.foldl_retains commands mid)
  obtain ⟨net, known, named⟩ := holds.memory
  rw [← isMemory] at known
  have filled := MemoryWords.filled_placed before.nets.size first.toInt last.toInt
  have chosen := MemoryWords.toInt?_bind_word? filled (Machine.fits_toInt first)
    (Machine.fits_toInt last) definite indexNode.signed
  have long (wide : 64 < index.width) : run = (.error (.fault (.noWord index memory)), design) := by
    rw [if_neg (Nat.not_le_of_lt wide)] at chosen
    exact runOn_word_refused known named definite chosen settings node
  refine ⟨fun between => (holds.word between).2, ⟨?_, ?_⟩, long⟩
  · intro judges between
    by_contra wide
    have refused := (judges.named between).symm.trans (long (Nat.lt_of_not_le wide))
    cases refused
  · intro short
    apply judgesIndex known named definite
    · intro between
      rw [chosen, if_pos (short between), (holds.word between).1]
    · intro outside
      rw [chosen, ((MemoryWords.enumerates filled).outside outside).2, ite_self]

/-- An index of three bits between a positive and a negative bound, after another request. -/
theorem constant_indexes_judged_negative :
    ∃ mid, (Build.addMemory .root "m" 4 false 1 (-2) .nowhere).runOn (.empty "top") =
        (.ok ⟨4⟩, mid) ∧
      let design := [Command.addSignal .root "i" (.vector 1 false) .nowhere].foldl Command.apply mid
      let read := (synthesize {} (.word ⟨.vector 4 false, .nowhere⟩ ⟨4⟩
        (.constant ⟨.vector 3 true, .nowhere⟩ (Bits.ofNat 7 3)))).runOn design
      read = (.ok (some ⟨2⟩), design) ∧ design.Declared ⟨2⟩ .root "m[-1]" (.vector 4 false) := by
  have first : (1 : BitVec 64).toInt = 1 := by decide
  have last : (-2 : BitVec 64).toInt = -2 := by decide
  have number : (Bits.ofNat 7 3).number (⟨.vector 3 true, .nowhere⟩ : Node).signed = -1 := by
    decide +kernel
  have definite : (Bits.ofNat 7 3).isDefinite = true := by decide +kernel
  obtain ⟨mid, ran, _⟩ := Build.runOn_addMemory (.empty "top") .root "m" 4 false
    (1 : BitVec 64).toInt (-2 : BitVec 64).toInt .nowhere
  have fourth : NetId.mk ((Design.empty "top").nets.size + (MemoryWords.indexes
      (1 : BitVec 64).toInt (-2 : BitVec 64).toInt).length) = ⟨4⟩ := by
    decide +kernel
  rw [fourth] at ran
  have second : NetId.mk ((Design.empty "top").nets.size + (-1 - 1 : Int).natAbs) = ⟨2⟩ := by
    decide +kernel
  have text : wordText "m" (-1) = "m[-1]" := by decide +kernel
  have settled := constant_indexes_judged_iff ran
    [Command.addSignal .root "i" (.vector 1 false) .nowhere] {} ⟨.vector 4 false, .nowhere⟩
    ⟨.vector 3 true, .nowhere⟩ definite
  rw [number, first, last] at settled
  rw [first, last] at ran
  obtain ⟨stored, judged, _⟩ := settled
  rw [second] at stored judged
  rw [text] at stored
  have named := (judged.mpr fun _ => by decide).named (by decide)
  exact ⟨mid, ran, named, stored (by decide)⟩

/-- Sixty-five bits that write one do not name the word of index one. -/
theorem constant_indexes_wide :
    let design := Design.reached "top" [.addMemory .root "m" 4 false 0 1 .nowhere]
    let index := (Bits.zeros 65).withLevel 0 .one
    index.isDefinite = true ∧ index.number false = 1 ∧
      ((design.net? ⟨2⟩).bind (·.memory)).bind (·.word? 1) = some ⟨1⟩ ∧
      (synthesize {} (.word ⟨.vector 4 false, .nowhere⟩ ⟨2⟩
        (.constant ⟨.vector 65 false, .nowhere⟩ index))).runOn design =
          (.error (.fault (.noWord index ⟨2⟩)), design) := by
  intro design index
  have definite : index.isDefinite = true := by decide +kernel
  have memory : (design.net? ⟨2⟩).bind (·.memory) = some ⟨0, 1, #[⟨0⟩, ⟨1⟩]⟩ := by decide +kernel
  obtain ⟨net, known, named⟩ := Option.bind_eq_some_iff.mp memory
  refine ⟨definite, by decide +kernel, by rw [memory]; decide, ?_⟩
  exact runOn_word_refused known named definite (by decide +kernel) {} _

end NetSynth
