import NetSynth.Proofs.Collecting
import NetSynth.Proofs.Comparisons

/-! Calls that return a net. Each argument is brought to the width of its port, and the device of the
call comes last. A port does not ask for its domain, so an argument arrives with its own. -/
namespace NetSynth

def DeviceKind.isCall : DeviceKind → Bool
  | .call .. => true
  | _ => false

namespace Design

variable {before mid after : Design} {id middle out : NetId}

def SameDomain (design : Design) (id out : NetId) : Prop :=
  ∃ net net', design.net? id = some net ∧ design.net? out = some net' ∧ net'.domain = net.domain

theorem SameDomain.grows (same : before.SameDomain id out) (grown : before.Grows after) :
    after.SameDomain id out := by
  obtain ⟨net, net', known, known', domain⟩ := same
  obtain ⟨_, found, type, _⟩ := grown.net known
  obtain ⟨_, found', type', _⟩ := grown.net known'
  have same := congrArg ValueType.domain type
  exact ⟨_, _, found, found', (congrArg ValueType.domain type').trans (domain.trans same.symm)⟩

/-- The design grew without a call. -/
structure Uncalled (before after : Design) : Prop where
  grows : before.Grows after
  calls : ∀ device ∈ before.newDevices after, device.kind.isCall = false

theorem Uncalled.refl (design : Design) : design.Uncalled design where
  grows := .refl design
  calls := by simp [newDevices_self]

theorem Uncalled.trans (first : before.Uncalled mid) (second : mid.Uncalled after) :
    before.Uncalled after where
  grows := first.grows.trans second.grows
  calls := by
    rw [newDevices_append first.grows second.grows, List.forall_mem_append]
    exact ⟨first.calls, second.calls⟩

theorem Adds.uncalled {kinds : List DeviceKind} (adds : before.Adds after kinds)
    (others : ∀ kind ∈ kinds, kind.isCall = false) : before.Uncalled after where
  grows := adds.grows
  calls := by
    rw [← adds.kinds, List.forall_mem_map] at others
    exact others

/-- A net was brought to another width: nothing was called for it, and it has its domain still. -/
structure Resizes (before after : Design) (id out : NetId) : Prop
    extends Uncalled before after where
  domain : after.SameDomain id out

theorem Resizes.self {design : Design} {net : Net} (known : design.net? id = some net) :
    design.Resizes design id id where
  toUncalled := .refl design
  domain := ⟨net, net, known, known, rfl⟩

theorem Resizes.trans (first : before.Resizes mid id middle)
    (second : mid.Resizes after middle out) : before.Resizes after id out where
  toUncalled := first.toUncalled.trans second.toUncalled
  domain := by
    obtain ⟨net, shared, known, onMiddle, same⟩ := first.domain.grows second.grows
    obtain ⟨shared', net', onMiddle', known', same'⟩ := second.domain
    cases onMiddle.symm.trans onMiddle'
    exact ⟨net, net', known, known', same'.trans same⟩

/-- The steps up to `mid` found out a device, and it was made in the scope for a net of the type, which
was new to the first design. -/
structure Installs (design mid after : Design) (scope : ScopeId) (type : ValueType) (span : Span)
    (out : NetId) (made : DeviceKind × List Connection) : Prop where
  fresh : design.net? out = none
  carries : after.Carries out type
  grows : mid.Grows after
  keeps : mid.Keeps made.1 made.2
  last : ∃ id name, mid.newDevices after =
    [⟨id, name, scope, made.1, made.1.connect made.2, span⟩]

theorem Installs.uncalled {design : Design} {scope : ScopeId} {type : ValueType} {span : Span}
    {made : DeviceKind × List Connection}
    (installs : design.Installs mid after scope type span out made)
    (other : made.1.isCall = false) : mid.Uncalled after where
  grows := installs.grows
  calls := by
    obtain ⟨id, name, last⟩ := installs.last
    rw [last, List.forall_mem_singleton]
    exact other

end Design

namespace Build

open Design

variable {design : Design} {scope : ScopeId} {type : ValueType} {span : Span}

theorem ends_addLocal_made : (addLocal scope type span).Ends design (fun out after =>
    design.Adds after [] ∧ design.net? out = none ∧ after.Carries out type) fun _ => True := by
  cases place : design.scope? scope with
  | none =>
    rw [ends_addLocal, place]
    trivial
  | some found =>
    by_cases scalar : type.domain = .real → type.width = 1
    · have made := ends_addLocal_adds span (Option.isSome_of_eq_some place) scalar
      exact made.mono fun _ _ adds => adds
    · rw [ends_addLocal, place]
      dsimp only
      rw [if_pos (by simpa [Domain.isReal] using scalar)]
      trivial

theorem ends_drive_installs {device : NetId → Build (DeviceKind × List Connection)}
    (ready : NetId → Design → DeviceKind × List Connection → Prop)
    (given : ∀ opened out, design.Adds opened [] → (device out).Ends opened
      (fun made mid => opened.Grows mid ∧ ready out mid made) fun _ => True) :
    (drive scope type span device).Ends design (fun out after => ∃ mid made, design.Grows mid ∧
      ready out mid made ∧ design.Installs mid after scope type span out made) fun _ => True := by
  simp only [drive, ends_bind, ends_pure]
  apply ends_addLocal_made.imp
  · rintro out opened ⟨opens, fresh, carries⟩
    apply (given opened out opens).imp
    · rintro made mid ⟨grown, isReady⟩
      rw [ends_addDevice]
      cases kept : mid.check made.1 made.2 with
      | error fault => trivial
      | ok _ =>
        cases place : mid.scope? scope with
        | none => trivial
        | some found =>
          have more := mid.grows_localDevice scope found.nextLocal made.1 made.2 span
          have last := newDevices_pushDevice _ (mid.grows_nameLocal scope found.nextLocal) scope
            (mid.nameLocal scope found.nextLocal).1 made.1 made.2 span
          use mid, made, opens.grows.trans grown, isReady
          constructor
          · exact fresh
          · exact carries.grows (grown.trans more)
          · exact more
          · exact check_eq_ok_iff.mp kept
          · exact ⟨_, _, last.trans (congrArg (· ++ _) mid.newDevices_self)⟩
    · exact fun _ _ => trivial
  · exact fun _ _ => trivial

variable {id : NetId} {width : Nat}

theorem padKinds_not_call (type : ValueType) (width : Nat) :
    ∀ kind ∈ padKinds type width, kind.isCall = false := by
  rw [padKinds, extensionKinds]
  cases type.signed <;> split <;> simp [DeviceKind.isCall]

theorem ends_pad_resizes : (pad id width span).Ends design
    (fun out after => design.Resizes after id out) fun _ => True := by
  rw [pad, ends_bind, ends_net]
  constructor
  · intro net known
    by_cases real : net.domain = .real
    · rw [if_pos (by simp [real, Domain.isReal])]
      exact .self known
    · have pads := @ends_pad_pads design id net width known real span
      rw [pad, ends_bind, ends_net_of known] at pads
      apply pads.imp
      · intro out after pads
        constructor
        · exact pads.adds.uncalled (padKinds_not_call net.toValueType width)
        · obtain ⟨net', known', _⟩ := pads.sees.resolves
          obtain ⟨_, found, type, _⟩ := pads.adds.grows.net known
          have domain := pads.sees.domain
          rw [shownDomain_of known'] at domain
          exact ⟨_, net', found, known', domain.trans (congrArg ValueType.domain type).symm⟩
      · exact fun _ _ => trivial
  · exact fun _ => trivial

theorem ends_crop_resizes : (crop id width span).Ends design
    (fun out after => design.Resizes after id out) fun _ => True := by
  rw [crop, ends_bind, ends_net]
  constructor
  · intro net known
    by_cases narrow : net.width ≤ width
    · rw [if_pos narrow]
      exact .self known
    · rw [if_neg narrow]
      refine Ends.imp (ends_drive_installs (fun out mid made => design.Uncalled mid ∧
        made = (.partSelect width net.width (.fixed 0), [⟨.vector, id⟩, ⟨.part, out⟩])) ?_) ?_
        fun _ _ => trivial
      · intro opened out opens
        exact ⟨.refl opened, opens.uncalled (by simp), rfl⟩
      · rintro out after ⟨mid, _, grown, ⟨uncalled, rfl⟩, installs⟩
        obtain ⟨net', known', type, _⟩ := installs.carries.stored
        obtain ⟨_, found, same, _⟩ := (grown.trans installs.grows).net known
        have domain := congrArg ValueType.domain same
        constructor
        · exact uncalled.trans (installs.uncalled rfl)
        · exact ⟨_, net', found, known', (congrArg ValueType.domain type).trans domain.symm⟩
  · exact fun _ => trivial

theorem ends_fit_resizes : (fit id width span).Ends design
    (fun out after => design.Resizes after id out) fun _ => True := by
  rw [fit, ends_bind]
  apply ends_pad_resizes.imp
  · intro padded mid first
    apply ends_crop_resizes.imp
    · exact fun out after second => first.trans second
    · exact fun _ _ => trivial
  · exact fun _ _ => trivial

/-- The arguments keep their domains, each the one of its net. -/
theorem ends_fitArguments (arguments : List (NetId × Port × Operand)) :
    (Rule.fitArguments arguments).Ends design (fun fitted after => design.Uncalled after ∧
      List.Forall₂ after.SameDomain (arguments.map (·.1)) fitted) fun _ => True := by
  induction arguments generalizing design with
  | nil => exact ⟨.refl design, .nil⟩
  | cons argument rest ih =>
    simp only [Rule.fitArguments, ends_bind, ends_pure]
    apply ends_fit_resizes.imp
    · intro first mid resizes
      apply ih.imp
      · rintro others after ⟨uncalled, domains⟩
        constructor
        · exact resizes.toUncalled.trans uncalled
        · exact .cons (resizes.domain.grows uncalled.grows) domains
      · exact fun _ _ => trivial
    · exact fun _ _ => trivial

end Build

namespace Design

/-- A call of the nets was added: what brings them to the widths of the ports, and last the device of
the call, for a new net of the declared type. -/
structure Calls (before after : Design) (node : Node) (scope : ScopeId)
    (signature : FunctionSignature) (ids fitted : List NetId) (out : NetId) : Prop where
  grows : before.Grows after
  device : ∃ resizing id name, (∀ other ∈ resizing, other.kind.isCall = false) ∧
    let kind := .call signature.id signature.result.width (signature.ports.map (·.width))
    before.newDevices after = resizing ++ [⟨id, name, scope, kind, kind.connect (⟨.result, out⟩ ::
      fitted.mapIdx fun position id => ⟨.argument position, .whole id⟩), node.span⟩]
  fresh : before.net? out = none
  result : after.Carries out signature.result.toValueType
  widths : List.Forall₂ (fun id port => (after.net? id).map (·.width) = some port.width) fitted
    signature.ports
  domains : List.Forall₂ after.SameDomain ids fitted

/-- A device of a call has as many arguments as the function has ports, of the same widths. -/
theorem Keeps.call_widths {design : Design} {function : FunctionId} {width : Nat} {widths : List Nat}
    {out : NetRef} {fitted : List NetId}
    (keeps : design.Keeps (.call function width widths)
      (⟨.result, out⟩ :: fitted.mapIdx fun position id => ⟨.argument position, .whole id⟩)) :
    List.Forall₂ (fun id width => (design.net? id).map (·.width) = some width) fitted widths := by
  rw [List.forall₂_iff_get]
  constructor
  · simpa [DeviceKind.pins] using congrArg List.length keeps.pins
  · intro position inside inside'
    have shown := keeps.widths ⟨.argument position, .whole fitted[position]⟩
      (List.mem_cons_of_mem _ (List.mem_mapIdx.mpr ⟨position, inside, rfl⟩)) _
      (List.getElem?_eq_getElem inside')
    obtain ⟨net, known, _, same⟩ := refWidth_eq_ok_iff.mp shown
    rw [List.get_eq_getElem, List.get_eq_getElem, ← same]
    exact congrArg (Option.map _) known

end Design

section Calling

open Build Design

variable {design : Design} {node : Node} {signature : FunctionSignature} {scope : ScopeId}
  {arguments : List Operand} {ids : List NetId}

theorem Rule.ends_callWith (arity : arguments.length = signature.ports.length)
    (count : ids.length = arguments.length) :
    (callWith node signature scope arguments ids).Ends design
      (fun out after => ∃ fitted, design.Calls after node scope signature ids fitted out)
      fun _ => True := by
  have members : (ids.zip (signature.ports.zip arguments)).map (·.1) = ids := by
    apply List.map_fst_zip
    simp [arity, count]
  refine Ends.imp (ends_drive_installs (fun out mid made => ∃ fitted, design.Uncalled mid ∧
    List.Forall₂ mid.SameDomain ids fitted ∧ made =
      (.call signature.id signature.result.width (signature.ports.map (·.width)),
        ⟨.result, out⟩ :: fitted.mapIdx fun position id => ⟨.argument position, .whole id⟩)) ?_) ?_
    fun _ _ => trivial
  · intro opened out opens
    rw [ends_bind]
    apply (ends_fitArguments _).imp
    · rintro fitted mid ⟨uncalled, domains⟩
      rw [members] at domains
      exact ⟨uncalled.grows, fitted, (opens.uncalled (by simp)).trans uncalled, domains, rfl⟩
    · exact fun _ _ => trivial
  · rintro out after ⟨mid, _, grown, ⟨fitted, uncalled, domains, rfl⟩, installs⟩
    obtain ⟨id, name, last⟩ := installs.last
    use fitted
    constructor
    · exact grown.trans installs.grows
    · use design.newDevices mid, id, name, uncalled.calls
      rw [newDevices_append grown installs.grows, last]
    · exact installs.fresh
    · exact installs.carries
    · have widths := installs.keeps.call_widths
      rw [List.forall₂_map_right_iff] at widths
      apply widths.imp
      intro id port width
      obtain ⟨net, known, same⟩ := Option.map_eq_some_iff.mp width
      obtain ⟨_, found, type, _⟩ := installs.grows.net known
      rw [found, Option.map_some, congrArg ValueType.width type, same]
    · exact domains.imp fun _ _ same => same.grows installs.grows

variable {function : FunctionId}

/-- A call that comes to a net is one of a function that exists, by its name and with an argument
for each port. -/
theorem Rule.ends_call_known :
    (call node function scope arguments).Ends design
      (fun _ _ => ∃ signature name, design.function? function = some signature ∧
        design.names.text? signature.result.name = some name ∧
        arguments.length = signature.ports.length) (fun _ => True) fun _ => True := by
  rw [call, Attempt.ends_bind, Attempt.ends_liftM, ends_functionOf]
  cases known : design.function? function with
  | none => trivial
  | some signature =>
    dsimp only
    cases named : design.names.text? signature.result.name with
    | none => trivial
    | some name =>
      dsimp only
      split
      · trivial
      · rename_i arity
        apply (Attempt.ends_ran _ _).imp
        · exact fun _ _ _ => ⟨signature, name, rfl, named, Decidable.not_not.mp arity⟩
        · exact fun _ _ => trivial
        · exact fun _ _ => trivial

end Calling

/-- A call that comes to a net has built its arguments in turn, and then made one device, in its
scope and for a new net of the declared type. Each argument arrives with the width of its port, and
with the domain that its net has. -/
theorem call_arguments_arrive (rootName : String) (commands : List Command)
    (settings : SynthesisSettings) {node : Node} {function : FunctionId} {scope : ScopeId}
    {arguments : List Expr} {out : NetId} {after : Design}
    (ran : (synthesize settings (.call node function scope arguments)).runOn
      (Design.reached rootName commands) = (.ok (some out), after)) :
    let design := Design.reached rootName commands
    ∃ signature name ids mid fitted, design.function? function = some signature ∧
      signature.id = function ∧ design.names.text? signature.result.name = some name ∧
      design.InTurn settings.generation (Request.each (Rule.argumentNote name) arguments)
        (ids.map some) mid ∧
      mid.Calls after node scope signature ids fitted out := by
  intro design
  have valid := (Design.reached_steps rootName commands).wellFormed
    (Design.wellFormed_empty rootName)
  obtain ⟨signature, name, known, named, arity⟩ : ∃ signature name,
      design.function? function = some signature ∧
      design.names.text? signature.result.name = some name ∧
      arguments.length = signature.ports.length := by
    have direct := ran
    rw [synthesize, Expr.build] at direct
    simpa [Expr.operands_eq_map] using Rule.ends_call_known.of_ran direct
  rw [Rule.runOn_call known named arity, Attempt.run_bind] at ran
  split at ran
  · rename_i ids mid built
    obtain ⟨_, turn, all⟩ := Attempt.runOn_all_eq_ok_iff.mp built
    rw [mapM_id_eq_some_iff.mp all] at turn
    have count : ids.length = arguments.length := by
      simpa [Request.each] using turn.length_eq.symm
    have calls : (liftM (Rule.callWith node signature scope
        (Expr.operands settings.generation arguments) ids) : Attempt NetId).Ends mid
        (fun out after => ∃ fitted, mid.Calls after node scope signature ids fitted out)
        (fun _ => True) fun _ => True := by
      rw [Attempt.ends_liftM]
      apply Rule.ends_callWith
      · simpa [Expr.operands_eq_map] using arity
      · simpa [Expr.operands_eq_map] using count
    obtain ⟨fitted, calls⟩ := calls.of_ran ran
    exact ⟨signature, name, ids, mid, fitted, known, valid.functionId known, named, turn, calls⟩
  · cases ran
  · cases ran

theorem call_arguments_arrive_resized :
    let design := Design.reached "top" [.addSignal .root "a" (.vector 4 true) .nowhere,
      .intern "f", .addFunction .root ⟨.vector 4 false, ⟨2⟩⟩
        [⟨.vector 2 false, ⟨1⟩⟩, ⟨.vector 6 false, ⟨1⟩⟩]]
    let a := Expr.signal ⟨.vector 4 true, .nowhere⟩ ⟨0⟩
    let node : Node := ⟨.vector 4 false, .nowhere⟩
    ∃ after, (synthesize {} (.call node ⟨0⟩ .root [a, a])).runOn design = (.ok (some ⟨1⟩), after) ∧
      ∃ (signature : FunctionSignature) (ids : List NetId) (mid : Design) (fitted : List NetId),
        signature.ports.map (·.width) = [2, 6] ∧
        mid.Calls after node .root signature ids fitted ⟨1⟩ := by
  intro design a node
  have result : ((synthesize {} (.call node ⟨0⟩ .root [a, a])).runOn design).1.toOption =
      some (some ⟨1⟩) := by decide +kernel
  have widths : (design.function? ⟨0⟩).map (·.ports.map (·.width)) = some [2, 6] := by
    decide +kernel
  rcases ran : (synthesize {} (.call node ⟨0⟩ .root [a, a])).runOn design with ⟨outcome, after⟩
  rw [ran] at result
  cases outcome with
  | error stop => cases result
  | ok value =>
    obtain rfl := Option.some.inj result
    obtain ⟨signature, _, ids, mid, fitted, known, _, _, _, calls⟩ :=
      call_arguments_arrive "top" _ {} ran
    rw [known] at widths
    exact ⟨after, rfl, signature, ids, mid, fitted, Option.some.inj widths, calls⟩

/-- Four bits for a port of a real number: the argument arrives as one bit, and not as a number. -/
theorem call_argument_domain_kept :
    let design := Design.reached "top" [.addSignal .root "a" (.vector 4 false) .nowhere,
      .intern "f", .addFunction .root ⟨.vector 4 false, ⟨2⟩⟩ [⟨⟨1, .real, false⟩, ⟨1⟩⟩]]
    let run := (synthesize {} (.call ⟨.vector 4 false, .nowhere⟩ ⟨0⟩ .root
      [.signal ⟨.vector 4 false, .nowhere⟩ ⟨0⟩])).runOn design
    run.1.toOption = some (some ⟨1⟩) ∧
      (design.newDevices run.2).map (fun device => (device.kind.label, device.connections)) =
        [("partselect", [⟨.vector, NetId.mk 0⟩, ⟨.part, NetId.mk 2⟩]),
          ("ufunc", [⟨.result, NetId.mk 1⟩, ⟨.argument 0, NetId.mk 2⟩])] ∧
      (run.2.net? ⟨2⟩).map (·.toValueType) = some ⟨1, .logic, false⟩ := by
  decide +kernel

end NetSynth
