import NetSynth.Proofs.Disciplined
import NetSynth.Proofs.Steps

/-! Requests to a design as data, and the designs that sequences of them reach. Every request is a
sequence of single changes, whatever it comes to. -/
namespace NetSynth

inductive Command where
  | intern (text : String)
  | report (diagnostic : Diagnostic)
  | takeReports
  | addScope (text : String) (parent : ScopeId)
  | addFunction (scope : ScopeId) (result : Port) (ports : List Port)
  | addSignal (scope : ScopeId) (text : String) (type : ValueType) (span : Span)
  | addMemory (scope : ScopeId) (text : String) (width : Nat) (signed : Bool) (first last : Int)
      (span : Span)
  | addLocal (scope : ScopeId) (type : ValueType) (span : Span)
  | addDevice (scope : ScopeId) (kind : DeviceKind) (connections : List Connection) (span : Span)
  | constant (scope : ScopeId) (value : Bits) (signed : Bool) (span : Span)
  | literal (value : Float) (span : Span)
  | extend (id : NetId) (width : Nat) (signed : Bool) (span : Span)
  | pad (id : NetId) (width : Nat) (span : Span)
  | crop (id : NetId) (width : Nat) (span : Span)
  | synthesize (settings : SynthesisSettings) (expr : Expr)
  | synthesizeAll (settings : SynthesisSettings) (exprs : List Expr)

/-- What a request does; its answer is left out. -/
def Command.run : Command → Build Unit
  | intern text => discard (Build.intern text)
  | report diagnostic => Build.report diagnostic
  | takeReports => modify fun design => { design with log := design.log.take.2 }
  | addScope text parent => discard (Build.addScope text parent)
  | addFunction scope result ports => discard (Build.addFunction scope result ports)
  | addSignal scope text type span => discard (Build.addSignal scope text type span)
  | addMemory scope text width signed first last span =>
      discard (Build.addMemory scope text width signed first last span)
  | addLocal scope type span => discard (Build.addLocal scope type span)
  | addDevice scope kind connections span =>
      discard (Build.addDevice scope kind connections span)
  | constant scope value signed span => discard (Build.constant scope value signed span)
  | literal value span => discard (Build.literal value span)
  | extend id width signed span => discard (Build.extend id width signed span)
  | pad id width span => discard (Build.pad id width span)
  | crop id width span => discard (Build.crop id width span)
  | synthesize settings expr => discard (NetSynth.synthesize settings expr)
  | synthesizeAll settings exprs => discard (NetSynth.synthesizeAll settings exprs)

/-- The design that a request leaves, also where it stops. -/
def Command.apply (design : Design) (command : Command) : Design := (command.run.runOn design).2

/-- The design that requests leave, from one that holds its root scope alone. -/
def Design.reached (rootName : String) (commands : List Command) : Design :=
  commands.foldl Command.apply (Design.empty rootName)

/-- The run changes the design one step after the other, and `value` holds of what it returns. -/
def Build.Moves (run : Build α) (design : Design) (value : Design → α → Prop) : Prop :=
  run.Ends design (fun a after => design.Steps after ∧ value after a) design.Steps

namespace Build

open Design (Step Steps)

variable {design : Design} {α β : Type} {value : Design → α → Prop} {value' : Design → β → Prop}

theorem Moves.bind {run : Build α} {next : α → Build β} (first : run.Moves design value)
    (second : ∀ a mid, design.Steps mid → value mid a → (next a).Moves mid value') :
    (run >>= next).Moves design value' := by
  rw [Moves, ends_bind]
  apply Ends.imp first
  · rintro a mid ⟨steps, known⟩
    apply Ends.imp (second a mid steps known)
    · exact fun b after ⟨more, result⟩ => ⟨steps.trans more, result⟩
    · exact fun after more => steps.trans more
  · exact fun after steps => steps

theorem Moves.imp {run : Build α} {value' : Design → α → Prop} (moves : run.Moves design value)
    (weaker : ∀ after a, value after a → value' after a) : run.Moves design value' :=
  Ends.imp moves (fun a after ⟨steps, known⟩ => ⟨steps, weaker after a known⟩) fun _ steps => steps

theorem Moves.steps {run : Build α} (moves : run.Moves design value) :
    design.Steps (run.runOn design).2 :=
  (Ends.imp moves (fun _ _ moved => moved.1) fun _ steps => steps).after

theorem moves_pure {a : α} (given : value design a) : (pure a : Build α).Moves design value :=
  ⟨.refl, given⟩

theorem moves_modifyGet {change : Design → α × Design} (step : design.Step (change design).2)
    (given : value (change design).2 (change design).1) :
    (modifyGet change : Build α).Moves design value :=
  ⟨.single step, given⟩

theorem moves_modify {change : Design → Design} (step : design.Step (change design)) :
    Moves (modify change) design fun _ _ => True :=
  ⟨.single step, trivial⟩

theorem moves_intern (text : String) : (intern text).Moves design fun _ _ => True :=
  moves_modifyGet (.intern text) trivial

theorem moves_report (diagnostic : Diagnostic) :
    (report diagnostic).Moves design fun _ _ => True :=
  ⟨.single (.report diagnostic), trivial⟩

theorem moves_addScope (text : String) (parent : ScopeId) :
    (addScope text parent).Moves design fun _ _ => True :=
  (moves_intern text).bind fun name _ _ _ => moves_modifyGet (.scope name parent) trivial

theorem moves_addFunction (scope : ScopeId) (result : Port) (ports : List Port) :
    (addFunction scope result ports).Moves design fun _ _ => True :=
  moves_modifyGet (.function scope result ports) trivial

theorem moves_localName (scope : ScopeId) : (localName scope).Moves design fun _ _ => True := by
  rw [Moves, ends_localName]
  split
  · exact .refl
  · exact ⟨.single (.nameLocal _ _), trivial⟩

theorem moves_addNet (scope : ScopeId) (name : Name) (origin : NetOrigin) (type : ValueType)
    (isLocal : Bool) (span : Span) :
    (addNet scope name origin type isLocal span).Moves design fun after id =>
      design.nets.size ≤ id.index ∧
        ∃ net, after.net? id = some net ∧ net.toValueType = type ∧ net.scope = scope := by
  rw [Moves, ends_addNet]
  by_cases wide : (type.domain.isReal && type.width != 1) = true
  · simp only [if_pos wide]
    exact .refl
  · simp only [if_neg wide]
    have scalar : type.domain = .real → type.width = 1 := by
      intro real
      simpa [Domain.isReal, real] using wide
    have stored := (design.net?_pushNet scope name origin type isLocal span _).trans (if_pos rfl)
    have step : design.Step _ := .net scope name origin type isLocal span scalar
    exact ⟨.single step, Nat.le_refl _, _, stored, rfl, rfl⟩

theorem moves_addSignal (scope : ScopeId) (text : String) (type : ValueType) (span : Span) :
    (addSignal scope text type span).Moves design fun after id =>
      design.nets.size ≤ id.index ∧
        ∃ net, after.net? id = some net ∧ net.toValueType = type ∧ net.scope = scope := by
  refine (moves_intern text).bind fun name mid steps _ => ?_
  apply (moves_addNet scope name .declared type false span).imp
  exact fun after id ⟨new, known⟩ => ⟨Nat.le_trans steps.net_count new, known⟩

theorem moves_addLocal (scope : ScopeId) (type : ValueType) (span : Span) :
    (addLocal scope type span).Moves design fun after id =>
      ∃ net, after.net? id = some net ∧ net.toValueType = type ∧ net.scope = scope :=
  (moves_localName scope).bind fun name _ _ _ =>
    (moves_addNet scope name .implicit type true span).imp fun _ _ known => known.2

theorem moves_addDevice (scope : ScopeId) (kind : DeviceKind) (connections : List Connection)
    (span : Span) : (addDevice scope kind connections span).Moves design fun _ _ => True := by
  rw [Moves, ends_addDevice]
  cases accepted : design.check kind connections with
  | error fault => exact .refl
  | ok _ =>
    cases known : design.scope? scope with
    | none => exact .refl
    | some found =>
      exact ⟨Steps.device scope span found.nextLocal accepted, trivial⟩

theorem moves_words (scope : ScopeId) (nameOf : Int → String) (type : ValueType) (span : Span)
    (indexes : List Int) :
    (indexes.mapM fun index => addSignal scope (nameOf index) type span).Moves design
      fun after words => words.length = indexes.length ∧ words.Nodup ∧ ∀ id ∈ words,
        design.nets.size ≤ id.index ∧
          ∃ net, after.net? id = some net ∧ net.toValueType = type ∧ net.scope = scope := by
  induction indexes generalizing design with
  | nil => exact moves_pure ⟨rfl, .nil, by simp⟩
  | cons index rest ih =>
    rw [List.mapM_cons]
    refine (moves_addSignal scope _ type span).bind fun first mid grown ⟨new, known⟩ => ?_
    refine ih.bind fun words after steps ⟨count, distinct, newRest⟩ => ?_
    refine moves_pure ⟨by simp [count], List.nodup_cons.mpr ⟨fun member => ?_, distinct⟩, ?_⟩
    · obtain ⟨net, stored, _⟩ := known
      exact Nat.lt_irrefl _ (Nat.lt_of_lt_of_le (mid.net?_lt stored) (newRest first member).1)
    · intro id member
      rcases List.mem_cons.mp member with rfl | member
      · exact ⟨new, steps.keepsTypes.of known⟩
      · obtain ⟨newer, knownRest⟩ := newRest id member
        exact ⟨Nat.le_trans grown.net_count newer, knownRest⟩

theorem moves_addMemory (scope : ScopeId) (text : String) (width : Nat) (signed : Bool)
    (first last : Int) (span : Span) :
    (addMemory scope text width signed first last span).Moves design fun _ _ => True := by
  rw [addMemory]
  apply (moves_words scope _ _ span _).bind
  rintro words mid _ ⟨count, distinct, known⟩
  apply (moves_addSignal scope text _ span).bind
  rintro memory mid₁ steps ⟨_, net, named, type, place⟩
  refine (moves_modify (.memory _ _ ?_ distinct)).bind fun _ _ _ _ => moves_pure trivial
  intro found isNamed
  obtain rfl := Option.some.inj (named.symm.trans isNamed)
  refine ⟨congrArg ValueType.domain type, ?_, fun id member => ?_⟩
  · simp [count, MemoryWords.indexes]
  · rw [type, place]
    exact steps.keepsTypes.of (known id (List.mem_toArray.mp member)).2

/-- The discipline of changing a design step by step. -/
def stepping (start : Design) : Discipline where
  holds := fun _ => start.Steps
  stopped := start.Steps
  usable := fun _ _ => True
  stop := id
  report := fun diagnostic steps => steps.tail (.report diagnostic)
  usable_grows := fun _ _ => trivial
  usable_word := fun _ _ _ _ => trivial
  localName := fun steps _ => steps.tail (.nameLocal _ _)
  localNet := fun span steps _ scalar =>
    (steps.tail (.nameLocal _ _)).tail (.net _ _ _ _ _ span scalar)
  device := fun span steps _ accepted _ _ =>
    ⟨steps.trans (Steps.device _ span _ accepted), trivial⟩

theorem Moves.of_builds {run : Build α}
    (builds : (stepping design).Builds design run fun _ _ => True) :
    run.Moves design fun _ _ => True := by
  have kept : (stepping design).holds [] design := .refl
  apply (builds (.refl design) kept).imp
  · exact fun a after ⟨_, steps, _⟩ => ⟨steps, trivial⟩
  · exact fun after ⟨_, steps⟩ => steps

theorem moves_synthesize (settings : SynthesisSettings) (expr : Expr) :
    (synthesize settings expr).Moves design fun _ _ => True :=
  Moves.of_builds (Discipline.request settings expr fun _ _ => trivial)

end Build

namespace Command

theorem moves (command : Command) (design : Design) : command.run.Moves design fun _ _ => True := by
  have ignore : ∀ {α : Type} {run : Build α} {value : Design → α → Prop},
      run.Moves design value → Build.Moves (discard run) design fun _ _ => True := by
    intro α run value moves
    rw [Build.Moves, Build.ends_discard]
    exact Build.Ends.imp moves (fun _ _ moved => ⟨moved.1, trivial⟩) fun _ steps => steps
  cases command with
  | intern text => exact ignore (Build.moves_intern text)
  | report diagnostic => exact Build.moves_report diagnostic
  | takeReports => exact Build.moves_modify .takeReports
  | addScope text parent => exact ignore (Build.moves_addScope text parent)
  | addFunction scope result ports =>
    exact ignore (Build.moves_addFunction scope result ports)
  | addSignal scope text type span => exact ignore (Build.moves_addSignal scope text type span)
  | addMemory scope text width signed first last span =>
    exact ignore (Build.moves_addMemory scope text width signed first last span)
  | addLocal scope type span => exact ignore (Build.moves_addLocal scope type span)
  | addDevice scope kind connections span =>
    exact ignore (Build.moves_addDevice scope kind connections span)
  | constant scope value signed span =>
    exact ignore (Build.Moves.of_builds (Discipline.constant scope value signed span))
  | literal value span => exact ignore (Build.Moves.of_builds (Discipline.literal value span))
  | extend id width signed span =>
    exact ignore (Build.Moves.of_builds (Discipline.extend width signed span trivial))
  | pad id width span => exact ignore (Build.Moves.of_builds (Discipline.pad width span trivial))
  | crop id width span => exact ignore (Build.Moves.of_builds (Discipline.crop width span trivial))
  | synthesize settings expr => exact ignore (Build.moves_synthesize settings expr)
  | synthesizeAll settings exprs =>
    exact ignore (Build.Moves.of_builds
      (Conduct.Builds.synthesizeAll fun expr _ =>
        Discipline.request settings expr fun _ _ => trivial))

/-- Whatever a request comes to, it changes the design one step after the other. -/
theorem steps (command : Command) (design : Design) : design.Steps (command.apply design) :=
  (command.moves design).steps

end Command

theorem Command.foldl_steps (commands : List Command) (design : Design) :
    design.Steps (commands.foldl apply design) := by
  induction commands generalizing design with
  | nil => exact .refl
  | cons command rest ih => exact (command.steps design).trans (ih _)

theorem Design.reached_steps (rootName : String) (commands : List Command) :
    (empty rootName).Steps (reached rootName commands) :=
  Command.foldl_steps commands (empty rootName)

theorem Design.reached_distinctWords (rootName : String) (commands : List Command) :
    (Design.reached rootName commands).DistinctWords := by
  apply (Design.reached_steps rootName commands).distinctWords
  intro id net words known
  simp [Design.empty, Design.net?] at known

/-- Every design that requests reach is well formed, those that a stopped request leaves included. -/
theorem reached_wellFormed (rootName : String) (commands : List Command) :
    (Design.reached rootName commands).WellFormed :=
  (Design.reached_steps rootName commands).wellFormed (Design.wellFormed_empty rootName)

end NetSynth
