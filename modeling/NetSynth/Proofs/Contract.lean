import Mathlib.Algebra.GroupWithZero.Nat
import NetSynth.Proofs.Growth

/-! The contract between a kind of device and its connections, apart from the check that decides
it. -/
namespace NetSynth

/-- The number of bits that a reference takes from its net. -/
def NetRef.widthOn (net : Net) : NetRef → Nat
  | .whole _ => net.width
  | .bit _ _ => 1

namespace Design

variable {design : Design} {kind : DeviceKind} {connections : List Connection}

/-- The width that a reference shows, none if it names nothing. -/
def shownWidth (design : Design) (ref : NetRef) : Nat := (design.refWidth ref).toOption.getD 0

/-- What a reference takes its domain from; a net that does not exist has no type. -/
def shownDomain (design : Design) (ref : NetRef) : Domain :=
  ((design.net? ref.net).map (·.domain)).getD .untyped

/-- The reference names a net, or a bit inside a net. -/
def Resolves (design : Design) (ref : NetRef) : Prop :=
  ∃ net, design.net? ref.net = some net ∧ ∀ id index, ref = .bit id index → index < net.width

/-- The connections keep the contract of the kind: the pins of the kind in their order, on nets and
bits that exist, of the widths and the domains that the kind asks for. -/
structure Keeps (design : Design) (kind : DeviceKind) (connections : List Connection) : Prop where
  pins : connections.map Connection.pin = kind.pins
  refs : ∀ connection ∈ connections, design.Resolves connection.ref
  widths : ∀ connection ∈ connections, ∀ width, kind.pinWidth? connection.pin = some width →
    design.refWidth connection.ref = .ok width
  vectors : kind.isLogicOnly = true → ∀ connection ∈ connections,
    design.shownDomain connection.ref ≠ .real
  sum : ∀ width inputs, kind = .concat width inputs →
    ((connections.filter (·.pin.isInput)).map (design.shownWidth ·.ref)).sum = width
  domains : ∃ domain, ∀ connection ∈ connections, connection.pin ∈ kind.domainPins →
    design.shownDomain connection.ref = domain

theorem look_eq_ok_iff {connection : Connection} {seen : Seen} :
    design.look connection = .ok seen ↔ ∃ net, design.net? connection.ref.net = some net ∧
      (∀ id index, connection.ref = .bit id index → index < net.width) ∧
      seen = ⟨connection.pin, connection.ref.net, connection.ref.widthOn net, net.domain⟩ := by
  obtain ⟨pin, ref⟩ := connection
  simp only [look]
  cases found : design.net? ref.net with
  | none => simp [throw, throwThe, MonadExceptOf.throw]
  | some net =>
    cases ref with
    | whole id =>
      simp [NetRef.widthOn, pure, Except.pure, eq_comm]
    | bit id index =>
      by_cases inside : index < net.width
      · simp [NetRef.widthOn, inside, pure, Except.pure, eq_comm]
      · simp [inside, throw, throwThe, MonadExceptOf.throw]

theorem refWidth_eq_ok_iff {ref : NetRef} {width : Nat} :
    design.refWidth ref = .ok width ↔ ∃ net, design.net? ref.net = some net ∧
      (∀ id index, ref = .bit id index → index < net.width) ∧ ref.widthOn net = width := by
  constructor
  · intro shown
    unfold refWidth at shown
    cases looked : design.look ⟨.output, ref⟩ with
    | error fault => rw [looked] at shown; cases shown
    | ok seen =>
      rw [looked] at shown
      cases shown
      obtain ⟨net, known, inside, rfl⟩ := look_eq_ok_iff.mp looked
      exact ⟨net, known, inside, rfl⟩
  · rintro ⟨net, known, inside, rfl⟩
    have looked : design.look ⟨.output, ref⟩ = .ok ⟨.output, ref.net, ref.widthOn net, net.domain⟩ :=
      look_eq_ok_iff.mpr ⟨net, known, inside, rfl⟩
    rw [refWidth, looked]
    rfl

/-- What a pin sees through a connection that resolves. -/
def seen (design : Design) (connection : Connection) : Seen :=
  ⟨connection.pin, connection.ref.net, design.shownWidth connection.ref,
    design.shownDomain connection.ref⟩

theorem shownWidth_of {ref : NetRef} {net : Net} (known : design.net? ref.net = some net)
    (inside : ∀ id index, ref = .bit id index → index < net.width) :
    design.shownWidth ref = ref.widthOn net := by
  rw [shownWidth, refWidth_eq_ok_iff.mpr ⟨net, known, inside, rfl⟩]
  rfl

theorem shownDomain_of {ref : NetRef} {net : Net} (known : design.net? ref.net = some net) :
    design.shownDomain ref = net.domain := by
  simp [shownDomain, known]

theorem look_eq_seen_iff {connection : Connection} {seen : Seen} :
    design.look connection = .ok seen ↔
      design.Resolves connection.ref ∧ seen = design.seen connection := by
  rw [look_eq_ok_iff]
  constructor
  · rintro ⟨net, known, inside, rfl⟩
    exact ⟨⟨net, known, inside⟩, by rw [Design.seen, shownWidth_of known inside, shownDomain_of known]⟩
  · rintro ⟨⟨net, known, inside⟩, rfl⟩
    exact ⟨net, known, inside, by rw [Design.seen, shownWidth_of known inside, shownDomain_of known]⟩

theorem refWidth_eq_iff {ref : NetRef} {width : Nat} :
    design.refWidth ref = .ok width ↔ design.Resolves ref ∧ design.shownWidth ref = width := by
  rw [refWidth_eq_ok_iff]
  constructor
  · rintro ⟨net, known, inside, rfl⟩
    exact ⟨⟨net, known, inside⟩, shownWidth_of known inside⟩
  · rintro ⟨⟨net, known, inside⟩, rfl⟩
    exact ⟨net, known, inside, (shownWidth_of known inside).symm⟩

end Design

section Checks

variable {ε α β : Type}

theorem bind_eq_ok_iff {run : Except ε α} {next : α → Except ε β} {b : β} :
    (run >>= next) = .ok b ↔ ∃ a, run = .ok a ∧ next a = .ok b := by
  cases run with
  | error fault => simp [bind, Except.bind]
  | ok a => simp [bind, Except.bind]

theorem exists_unit {holds : Unit → Prop} : (∃ value, holds value) ↔ holds () :=
  ⟨fun ⟨_, known⟩ => known, fun known => ⟨(), known⟩⟩

theorem mapM_eq_ok_iff {check : α → Except ε β} {accepted : α → Prop} {value : α → β}
    (each : ∀ a b, check a = .ok b ↔ accepted a ∧ b = value a) (members : List α) (values : List β) :
    members.mapM check = .ok values ↔
      (∀ member ∈ members, accepted member) ∧ values = members.map value := by
  induction members generalizing values with
  | nil => simp [pure, Except.pure, eq_comm]
  | cons first rest ih =>
    simp only [List.mapM_cons, bind_eq_ok_iff, each, ih, List.forall_mem_cons, List.map_cons]
    constructor
    · rintro ⟨_, ⟨onFirst, rfl⟩, _, ⟨onRest, rfl⟩, ended⟩
      cases ended
      exact ⟨⟨onFirst, onRest⟩, rfl⟩
    · rintro ⟨⟨onFirst, onRest⟩, rfl⟩
      exact ⟨_, ⟨onFirst, rfl⟩, _, ⟨onRest, rfl⟩, rfl⟩

end Checks

namespace DeviceKind

variable {kind : DeviceKind} {seen : Design.Seen}

theorem checkPins_eq_ok_iff {given : List PinName} :
    kind.checkPins given = .ok () ↔ given = kind.pins := by
  rw [checkPins]
  split <;> simp_all [pure, Except.pure, throw, throwThe, MonadExceptOf.throw]

theorem checkWidth_eq_ok_iff : kind.checkWidth seen = .ok () ↔
    ∀ width, kind.pinWidth? seen.pin = some width → seen.width = width := by
  rw [checkWidth]
  cases kind.pinWidth? seen.pin with
  | none => simp [pure, Except.pure]
  | some required =>
    by_cases same : seen.width = required
    · simp [same, pure, Except.pure]
    · simp [same, throw, throwThe, MonadExceptOf.throw]

theorem checkReal_eq_ok_iff : kind.checkReal seen = .ok () ↔
    (kind.isLogicOnly = true → seen.domain ≠ .real) := by
  rw [checkReal]
  by_cases vectors : kind.isLogicOnly = true
  · by_cases real : seen.domain = .real
    · simp [vectors, real, Domain.isReal, throw, throwThe, MonadExceptOf.throw]
    · simp [vectors, real, Domain.isReal, pure, Except.pure]
  · simp [vectors, pure, Except.pure]

theorem checkSum_eq_ok_iff {all : List Design.Seen} : kind.checkSum all = .ok () ↔
    ∀ width inputs, kind = .concat width inputs →
      ((all.filter (·.pin.isInput)).map (·.width)).sum = width := by
  have asSum : ∀ rest : List Design.Seen,
      rest.foldr (fun seen sum => seen.width + sum) 0 = (rest.map (·.width)).sum := by
    intro rest
    induction rest with
    | nil => rfl
    | cons first rest ih => simp [ih]
  cases kind with
  | concat width inputs =>
    simp only [checkSum, asSum, concat.injEq]
    by_cases fills : ((all.filter (·.pin.isInput)).map (·.width)).sum = width
    · rw [if_pos fills]
      exact ⟨fun _ _ _ same => same.1 ▸ fills, fun _ => rfl⟩
    · rw [if_neg fills]
      exact ⟨fun accepted => (by cases accepted), fun every => absurd (every _ _ ⟨rfl, rfl⟩) fills⟩
  | _ => simp [checkSum, pure, Except.pure]

theorem checkDomains_eq_ok_iff {all : List Design.Seen} : kind.checkDomains all = .ok () ↔
    ∃ domain, ∀ seen ∈ all, seen.pin ∈ kind.domainPins → seen.domain = domain := by
  have sees : ∀ seen, seen ∈ all.filter (kind.domainPins.contains ·.pin) ↔
      seen ∈ all ∧ seen.pin ∈ kind.domainPins := by simp
  rw [checkDomains]
  split
  · rename_i nothing
    refine ⟨fun _ => ⟨.untyped, fun seen member pin => ?_⟩, fun _ => rfl⟩
    have listed := (sees seen).mpr ⟨member, pin⟩
    rw [nothing] at listed
    cases listed
  · rename_i first rest several
    rw [several] at sees
    cases other : rest.find? (·.domain != first.domain) with
    | none =>
      refine ⟨fun _ => ⟨first.domain, fun seen member pin => ?_⟩, fun _ => rfl⟩
      rcases List.mem_cons.mp ((sees seen).mpr ⟨member, pin⟩) with rfl | member
      · rfl
      · simpa using List.find?_eq_none.mp other seen member
    | some seen =>
      refine ⟨fun accepted => (by cases accepted), fun ⟨domain, same⟩ => ?_⟩
      have atFirst := same first ((sees first).mp List.mem_cons_self).1
        ((sees first).mp List.mem_cons_self).2
      have listed := (sees seen).mp (List.mem_cons_of_mem _ (List.mem_of_find?_eq_some other))
      have differs := List.find?_some other
      simp [same seen listed.1 listed.2, atFirst] at differs

end DeviceKind

namespace Design

variable {design : Design} {kind : DeviceKind} {connections : List Connection}

theorem lookAs_eq_ok_iff (design : Design) (kind : DeviceKind) (connection : Connection)
    (seen : Seen) : design.lookAs kind connection = .ok seen ↔
      (design.Resolves connection.ref ∧
        (∀ width, kind.pinWidth? connection.pin = some width →
          design.shownWidth connection.ref = width) ∧
        (kind.isLogicOnly = true → design.shownDomain connection.ref ≠ .real)) ∧
      seen = design.seen connection := by
  simp only [lookAs, bind_eq_ok_iff, exists_unit, look_eq_seen_iff, DeviceKind.checkWidth_eq_ok_iff,
    DeviceKind.checkReal_eq_ok_iff]
  constructor
  · rintro ⟨_, ⟨resolves, rfl⟩, width, vector, ended⟩
    cases ended
    exact ⟨⟨resolves, width, vector⟩, rfl⟩
  · rintro ⟨⟨resolves, width, vector⟩, rfl⟩
    exact ⟨_, ⟨resolves, rfl⟩, width, vector, rfl⟩

/-- The check accepts exactly the connections that keep the contract. -/
theorem check_eq_ok_iff :
    design.check kind connections = .ok () ↔ design.Keeps kind connections := by
  have looks := mapM_eq_ok_iff (lookAs_eq_ok_iff design kind) connections
  have inputs : ((connections.map design.seen).filter (·.pin.isInput)).map (·.width) =
      (connections.filter (·.pin.isInput)).map (design.shownWidth ·.ref) := by
    rw [List.filter_map, List.map_map]
    rfl
  simp only [check, bind_eq_ok_iff, exists_unit, DeviceKind.checkPins_eq_ok_iff, looks,
    DeviceKind.checkSum_eq_ok_iff, DeviceKind.checkDomains_eq_ok_iff]
  constructor
  · rintro ⟨pins, _, ⟨each, rfl⟩, sum, domain, same⟩
    refine ⟨pins, fun connection member => (each connection member).1, ?_, ?_, ?_, ?_⟩
    · intro connection member width asked
      have kept := each connection member
      exact refWidth_eq_iff.mpr ⟨kept.1, kept.2.1 width asked⟩
    · exact fun vectors connection member => (each connection member).2.2 vectors
    · intro width inputs' concat
      rw [← inputs]
      exact sum width inputs' concat
    · refine ⟨domain, fun connection member pin => ?_⟩
      exact same (design.seen connection) (List.mem_map_of_mem member) pin
  · rintro ⟨pins, refs, widths, vectors, sum, domain, same⟩
    refine ⟨pins, _, ⟨fun connection member => ⟨refs connection member, ?_, ?_⟩, rfl⟩, ?_, domain,
      ?_⟩
    · exact fun width asked => (refWidth_eq_iff.mp (widths connection member width asked)).2
    · exact fun vector => vectors vector connection member
    · intro width inputs' concat
      rw [inputs]
      exact sum width inputs' concat
    · intro seen member pin
      obtain ⟨connection, listed, rfl⟩ := List.mem_map.mp member
      exact same connection listed pin

variable {before after : Design}

/-- Every net keeps its type and its scope. -/
def KeepsTypes (before after : Design) : Prop :=
  ∀ ⦃id net⦄, before.net? id = some net → ∃ net', after.net? id = some net' ∧
    net'.toValueType = net.toValueType ∧ net'.scope = net.scope

theorem KeepsTypes.of {type : ValueType} {scope : ScopeId} (types : before.KeepsTypes after)
    {id : NetId} (known : ∃ net, before.net? id = some net ∧ net.toValueType = type ∧
      net.scope = scope) :
    ∃ net, after.net? id = some net ∧ net.toValueType = type ∧ net.scope = scope := by
  obtain ⟨net, found, sameType, sameScope⟩ := known
  obtain ⟨net', found', type', scope'⟩ := types found
  exact ⟨net', found', type'.trans sameType, scope'.trans sameScope⟩

theorem KeepsTypes.trans {later : Design} (first : before.KeepsTypes after)
    (second : after.KeepsTypes later) : before.KeepsTypes later := by
  intro id net known
  obtain ⟨net', found, type, scope⟩ := first known
  exact second.of ⟨net', found, type, scope⟩

theorem Grows.keepsTypes (grown : before.Grows after) : before.KeepsTypes after := by
  intro id net known
  obtain ⟨net', known', type, scope, _⟩ := grown.net known
  exact ⟨net', known', type, scope⟩

theorem KeepsTypes.resolves (types : before.KeepsTypes after) {ref : NetRef}
    (resolves : before.Resolves ref) : after.Resolves ref ∧
      after.shownWidth ref = before.shownWidth ref ∧
      after.shownDomain ref = before.shownDomain ref := by
  obtain ⟨net, known, inside⟩ := resolves
  obtain ⟨net', known', same, _⟩ := types known
  have width : net'.width = net.width := congrArg ValueType.width same
  have inside' : ∀ id index, ref = .bit id index → index < net'.width := by rwa [width]
  refine ⟨⟨net', known', inside'⟩, ?_, ?_⟩
  · rw [shownWidth_of known' inside', shownWidth_of known inside]
    cases ref <;> simp [NetRef.widthOn, width]
  · rw [shownDomain_of known', shownDomain_of known]
    exact congrArg ValueType.domain same

/-- What a device was checked for stays true, for its nets keep their types. -/
theorem Keeps.later {kind : DeviceKind} {connections : List Connection}
    (kept : before.Keeps kind connections) (types : before.KeepsTypes after) :
    after.Keeps kind connections where
  pins := kept.pins
  refs := fun connection member => (types.resolves (kept.refs connection member)).1
  widths := by
    intro connection member width asked
    have shown := refWidth_eq_iff.mp (kept.widths connection member width asked)
    obtain ⟨resolves, same, _⟩ := types.resolves shown.1
    exact refWidth_eq_iff.mpr ⟨resolves, same.trans shown.2⟩
  vectors := by
    intro vectors connection member
    rw [(types.resolves (kept.refs connection member)).2.2]
    exact kept.vectors vectors connection member
  sum := by
    intro width inputs concat
    rw [← kept.sum width inputs concat]
    refine congrArg List.sum (List.map_congr_left fun connection member => ?_)
    exact (types.resolves (kept.refs connection (List.mem_filter.mp member).1)).2.1
  domains := by
    obtain ⟨domain, same⟩ := kept.domains
    refine ⟨domain, fun connection member pin => ?_⟩
    rw [(types.resolves (kept.refs connection member)).2.2]
    exact same connection member pin

end Design
end NetSynth
