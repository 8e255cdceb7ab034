import NetSynth.Proofs.RealComposites
import NetSynth.Proofs.SingleDriver

/-! Where real nets get to in a design that is declared and synthesized. Most pins for vectors are
guarded, and the others see a real net exactly if an expression misplaces one. -/
namespace NetSynth

namespace Placing

open Conduct Design

variable {strict : Prop} {last start : Design}

/-- If a list of parts misplaces no real net, none of the parts does. -/
theorem places_operands {generation : Generation} {parts : List Expr}
    (each : ∀ part ∈ parts, (strict → part.misplacesReal last = false) →
      Places strict last start ⟨part, part.build generation⟩)
    (asked : strict → Expr.misplacesRealIn last parts = false) :
    ∀ operand ∈ Expr.operands generation parts, Places strict last start operand := by
  intro operand member
  rw [Expr.operands_eq_map] at member
  obtain ⟨part, listed, rfl⟩ := List.mem_map.mp member
  refine each part listed fun strictly => ?_
  have none := asked strictly
  rw [Expr.misplacesRealIn_eq_any] at none
  simpa using List.any_eq_false.mp none part listed

theorem places (generation : Generation) (expr : Expr)
    (asked : strict → expr.misplacesReal last = false) :
    Places strict last start ⟨expr, expr.build generation⟩ := by
  have never : ∀ {after : Design}, ∀ ⦃later⦄, after.Grows later → false = true →
      ¬later.RealsInPlace := fun _ misplaced => absurd misplaced Bool.false_ne_true
  induction expr using Expr.induction generalizing start with
  | constant node value =>
    exact Attempts.lift ((constant _ _ _ _).imp fun after id _ fixed => ⟨fixed, never⟩)
  | real node value =>
    exact Attempts.lift ((literal _ _).imp fun after id _ fixed => ⟨fixed, never⟩)
  | unary node op operand ih => exact unary (ih asked) node op
  | binary node op left right ihLeft ihRight =>
    simp only [Expr.misplacesReal, Bool.or_eq_false_iff] at asked
    have onLeft := @ihLeft start fun strictly => (asked strictly).1
    have onRight := @ihRight start fun strictly => (asked strictly).2
    exact binary onLeft onRight generation node op
  | concat node parts repeats ih =>
    have none := asked
    simp only [Expr.misplacesReal, Bool.or_eq_false_iff] at none
    have built := concat (places_operands (fun part listed => @ih part listed start)
      fun strictly => (none strictly).1) node repeats
    simp only [Expr.operands_expr] at built
    exact built asked
  | resize node operand ih => exact resize (ih asked) node
  | partSelect node vector base ihVector ihBase =>
    have none := asked
    simp only [Expr.misplacesReal, Bool.or_eq_false_iff] at none
    have onVector := @ihVector start fun strictly => (none strictly).1.1.1
    have onBase := @ihBase start fun strictly => (none strictly).1.1.2
    exact partSelect onVector onBase node asked
  | conditional node condition whenTrue whenFalse ihCondition ihTrue ihFalse =>
    have none := asked
    simp only [Expr.misplacesReal, Bool.or_eq_false_iff] at none
    have onCondition := @ihCondition start fun strictly => (none strictly).1.1.1
    have onTrue := @ihTrue start fun strictly => (none strictly).1.1.2
    have onFalse := @ihFalse start fun strictly => (none strictly).1.2
    exact conditional onCondition onTrue onFalse node asked
  | signal node net => exact Attempts.pure fun _ _ => ⟨fun _ _ => rfl, never⟩
  | word node memory index ih =>
    have none := asked
    simp only [Expr.misplacesReal, Bool.or_eq_false_iff] at none
    have onIndex := @ih start fun strictly => (none strictly).1
    exact word onIndex node memory asked
  | systemCall node name arguments _ => exact Attempts.reject _ _
  | call node function scope arguments ih =>
    have built := call (places_operands (fun argument listed => @ih argument listed start) asked)
      node function scope
    simp only [Expr.operands_expr] at built
    exact built
  | parameter node name => exact Attempts.reject _ _
  | scopeRef node scope => exact Attempts.reject _ _
  | event node => exact Attempts.reject _ _

/-- What a request leaves of a design, whatever it comes to. -/
theorem guards_after {α : Type} {run : Build α} {value : Design → α → Prop}
    (builds : (placing strict last).Builds start run value) (guards : start.Guards strict last) :
    ((discard run : Build Unit).runOn start).2.Guards strict last := by
  have kept : (placing strict last).holds [] start := guards
  have ends : run.Ends start (fun _ after => after.Guards strict last) (·.Guards strict last) :=
    (builds (.refl start) kept).imp (fun _ _ done => done.2.1) fun _ left => left.2
  exact ((Build.ends_discard run).mpr ends).after

end Placing

namespace Build

variable {α β : Type}

/-- Whatever the run comes to, it makes no device. -/
def SparesDevices (run : Build α) : Prop := ∀ design,
  run.Ends design (fun _ after => after.devices = design.devices) (·.devices = design.devices)

theorem SparesDevices.bind {run : Build α} {next : α → Build β} (first : run.SparesDevices)
    (second : ∀ a, (next a).SparesDevices) : (run >>= next).SparesDevices := by
  intro design
  rw [ends_bind]
  apply (first design).imp
  · intro a mid same
    apply (second a mid).imp
    · exact fun _ _ more => more.trans same
    · exact fun _ more => more.trans same
  · exact fun _ same => same

theorem SparesDevices.discard {run : Build α} (spares : run.SparesDevices) :
    SparesDevices (discard run) := fun design => (ends_discard run).mpr (spares design)

theorem sparesDevices_addNet (scope : ScopeId) (name : Name) (origin : NetOrigin) (type : ValueType)
    (isLocal : Bool) (span : Span) :
    (addNet scope name origin type isLocal span).SparesDevices := by
  intro design
  rw [ends_addNet]
  split <;> rfl

theorem sparesDevices_addSignal (scope : ScopeId) (text : String) (type : ValueType) (span : Span) :
    (addSignal scope text type span).SparesDevices :=
  SparesDevices.bind (fun _ => rfl) fun name =>
    sparesDevices_addNet scope name .declared type false span

theorem sparesDevices_addLocal (scope : ScopeId) (type : ValueType) (span : Span) :
    (addLocal scope type span).SparesDevices := by
  refine SparesDevices.bind (fun design => ?_) fun name =>
    sparesDevices_addNet scope name .implicit type true span
  rw [ends_localName]
  split <;> rfl

theorem sparesDevices_words (scope : ScopeId) (nameOf : Int → String) (type : ValueType)
    (span : Span) (indexes : List Int) :
    (indexes.mapM fun index => addSignal scope (nameOf index) type span).SparesDevices := by
  induction indexes with
  | nil => exact fun _ => rfl
  | cons index rest ih =>
    rw [List.mapM_cons]
    refine (sparesDevices_addSignal scope (nameOf index) type span).bind fun first => ?_
    exact ih.bind fun words _ => rfl

theorem sparesDevices_addMemory (scope : ScopeId) (text : String) (width : Nat) (signed : Bool)
    (first last : Int) (span : Span) :
    (addMemory scope text width signed first last span).SparesDevices := by
  refine (sparesDevices_words scope _ _ span _).bind fun words => ?_
  refine (sparesDevices_addSignal scope text _ span).bind fun memory => ?_
  exact SparesDevices.bind (fun _ => rfl) fun _ _ => rfl

end Build

namespace Command

/-- The expressions that a request is to build. -/
def exprs : Command → List Expr
  | synthesize _ expr => [expr]
  | synthesizeAll _ exprs => exprs
  | _ => []

/-- A request other than for a device of the caller's own keeps real nets to their pins. -/
theorem guards (command : Command) {design : Design} {strict : Prop}
    (guards : design.Guards strict design)
    (noDevice : ∀ scope kind connections span, command ≠ .addDevice scope kind connections span)
    (asked : strict → ∀ expr ∈ command.exprs, expr.misplacesReal (command.apply design) = false) :
    (command.apply design).Guards strict (command.apply design) := by
  have settled : design.Guards strict (command.apply design) :=
    { guards with inPlace := fun strictly _ => guards.inPlace strictly (.refl design) }
  have spares (spared : command.run.SparesDevices) :
      (command.apply design).Guards strict (command.apply design) :=
    have steps := command.steps design
    have same : (command.apply design).devices = design.devices := (spared design).after
    { valid := steps.wellFormed guards.valid
      confined := guards.confined.of_devices guards.valid steps.keepsTypes same
      inPlace := fun strictly _ => (guards.inPlace strictly (.refl design)).of_devices guards.valid
        steps.keepsTypes same }
  cases command with
  | intern | report | takeReports => exact spares fun _ => rfl
  | addScope | addFunction => exact spares fun _ => rfl
  | addSignal scope text type span =>
    exact spares (Build.sparesDevices_addSignal scope text type span).discard
  | addMemory scope text width signed first last span =>
    exact spares (Build.sparesDevices_addMemory scope text width signed first last span).discard
  | addLocal scope type span => exact spares (Build.sparesDevices_addLocal scope type span).discard
  | addDevice scope kind connections span => exact absurd rfl (noDevice scope kind connections span)
  | constant scope value signed span =>
    exact Placing.guards_after (Placing.constant scope value signed span) settled
  | literal value span => exact Placing.guards_after (Placing.literal value span) settled
  | extend id width signed span =>
    exact Placing.guards_after (Placing.extend id width signed span) settled
  | pad id width span => exact Placing.guards_after (Placing.pad id width span) settled
  | crop id width span => exact Placing.guards_after (Placing.crop id width span) settled
  | synthesize settings expr =>
    have placed : Placing.Places strict _ design ⟨expr, expr.build settings.generation⟩ :=
      Placing.places _ expr fun strictly => asked strictly expr (List.mem_singleton_self expr)
    exact Placing.guards_after (Conduct.Attempts.request placed) settled
  | synthesizeAll settings exprs =>
    refine Placing.guards_after (Conduct.Builds.synthesizeAll fun expr listed => ?_) settled
    have placed : Placing.Places strict _ design ⟨expr, expr.build settings.generation⟩ :=
      Placing.places _ expr fun strictly => asked strictly expr listed
    exact (Conduct.Attempts.request placed).imp fun _ _ _ _ => trivial

theorem guards_foldl {commands : List Command} {design : Design} {strict : Prop}
    (guards : design.Guards strict design)
    (noDevice : ∀ scope kind connections span, addDevice scope kind connections span ∉ commands)
    (asked : strict → ∀ command ∈ commands, ∀ expr ∈ command.exprs,
      expr.misplacesReal (commands.foldl apply design) = false) :
    (commands.foldl apply design).Guards strict (commands.foldl apply design) := by
  induction commands generalizing design with
  | nil => exact guards
  | cons command rest ih =>
    refine ih (command.guards guards ?_ fun strictly expr listed => ?_) ?_ ?_
    · rintro scope kind connections span rfl
      exact noDevice scope kind connections span List.mem_cons_self
    · -- What the request misplaces is misplaced in the end as well.
      have none := asked strictly command List.mem_cons_self expr listed
      rw [Bool.eq_false_iff] at none ⊢
      exact fun misplaced => none (expr.misplacesReal_later (foldl_steps rest _) misplaced)
    · exact fun scope kind connections span member =>
        noDevice scope kind connections span (List.mem_cons_of_mem _ member)
    · exact fun strictly command member => asked strictly command (List.mem_cons_of_mem _ member)

end Command

/-- In a design that is declared and synthesized, real nets are on pins that carry reals, or on pins of
concatenations and part-selects, selectors and addresses, which nothing guards. They are on pins that
carry reals alone if no expression misplaces a real net. A request that comes to a net keeps it so if
and only if its expression misplaces none. -/
theorem reals_in_place_iff (rootName : String) (commands : List Command)
    (noDevice : ∀ scope kind connections span,
      Command.addDevice scope kind connections span ∉ commands) :
    let design := Design.reached rootName commands
    design.RealsConfined ∧
    ((∀ command ∈ commands, ∀ expr ∈ command.exprs, expr.misplacesReal design = false) →
      design.RealsInPlace) ∧
    ∀ settings expr id after, (synthesize settings expr).runOn design = (.ok (some id), after) →
      (after.RealsInPlace ↔ design.RealsInPlace ∧ expr.misplacesReal after = false) := by
  intro design
  have start := fun strict => Design.guards_empty rootName strict (Design.empty rootName)
  have confined := (Command.guards_foldl (start False) noDevice False.elim).confined
  refine ⟨confined, fun asked => ?_, fun settings expr id after ran => ?_⟩
  · have kept := Command.guards_foldl (start _) noDevice fun strictly => strictly
    exact kept.inPlace asked (.refl design)
  · have guards : design.Guards (design.RealsInPlace ∧ expr.misplacesReal after = false) after :=
      ⟨reached_wellFormed rootName commands, confined, fun strictly _ => strictly.1⟩
    have kept : (Placing.placing _ after).holds [] design := guards
    have ends := Placing.places settings.generation expr And.right (.refl design) kept
    obtain ⟨grown, kept, matched⟩ := Attempt.Ends.of_ran ends ran
    constructor
    · exact fun inPlace => ⟨inPlace.earlier grown, Bool.eq_false_iff.mpr fun misplaced =>
        matched.misplaced (.refl after) misplaced inPlace⟩
    · exact fun strictly => kept.inPlace strictly (.refl after)

/-- A choice between a real sum and a real signal has real nets on its data and result pins only. -/
theorem reals_in_place_choice :
    let real : ValueType := ⟨1, .real, false⟩
    let r := Expr.signal ⟨real, .nowhere⟩ ⟨1⟩
    let commands := [Command.addSignal .root "s" .bit .nowhere, .addSignal .root "r" real .nowhere,
      .synthesize {} (.binary ⟨real, .nowhere⟩ (.sum .add) r r)]
    let choice := Expr.conditional ⟨real, .nowhere⟩ (.signal ⟨.bit, .nowhere⟩ ⟨0⟩)
      (.signal ⟨real, .nowhere⟩ ⟨2⟩) r
    (∀ scope kind connections span, Command.addDevice scope kind connections span ∉ commands) ∧
      ∃ after, (synthesize {} choice).runOn (Design.reached "top" commands) =
        (.ok (some ⟨3⟩), after) ∧ after.isReal ⟨3⟩ = true ∧ after.RealsInPlace := by
  intro real r commands choice
  have noDevice : ∀ scope kind connections span,
      Command.addDevice scope kind connections span ∉ commands := by simp [commands]
  obtain ⟨_, inPlace, each⟩ := reals_in_place_iff "top" commands noDevice
  have before := inPlace (by simp [commands, Command.exprs, r, Expr.misplacesReal])
  have result : ((synthesize {} choice).runOn (Design.reached "top" commands)).1.toOption =
      some (some ⟨3⟩) := by decide +kernel
  have nets : (((synthesize {} choice).runOn (Design.reached "top" commands)).2.isReal ⟨3⟩ = true ∧
      ((synthesize {} choice).runOn (Design.reached "top" commands)).2.isReal ⟨0⟩ = false) := by
    decide +kernel
  rcases ran : (synthesize {} choice).runOn (Design.reached "top" commands) with ⟨outcome, after⟩
  rw [ran] at result nets
  cases outcome with
  | error stop => cases result
  | ok value =>
    obtain rfl := Option.some.inj result
    have none : choice.misplacesReal after = false := by
      simp [choice, r, Expr.misplacesReal, Expr.buildsReal, nets.2]
    exact ⟨noDevice, after, rfl, nets.1, (each {} choice ⟨3⟩ after ran).mpr ⟨before, none⟩⟩

/-- A real part, a real base, a real condition and a real index are connected each to a pin for
vectors, and the request comes to a net. -/
theorem reals_out_of_place :
    let real : ValueType := ⟨1, .real, false⟩
    let word : Node := ⟨.vector 4 false, .nowhere⟩
    let r := Expr.signal ⟨real, .nowhere⟩ ⟨3⟩
    let a := Expr.signal word ⟨0⟩
    let design := Design.reached "top" [.addMemory .root "m" 4 false 0 1 .nowhere,
      .addSignal .root "r" real .nowhere]
    let misplaced := fun expr => let run := (synthesize {} expr).runOn design
      run.1.toOption = some (some ⟨4⟩) ∧ ¬run.2.RealsInPlace
    misplaced (.concat ⟨.vector 5 false, .nowhere⟩ [a, r] 1) ∧
      misplaced (.partSelect ⟨.bit, .nowhere⟩ a r) ∧
      misplaced (.conditional word r a a) ∧ misplaced (.word word ⟨2⟩ r) := by
  intro real word r a design misplaced
  refine ⟨?_, ?_, ?_, ?_⟩ <;> decide +kernel

end NetSynth
