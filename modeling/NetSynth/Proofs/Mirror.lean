import Mathlib.Data.List.Forall2
import NetSynth.Proofs.Contract
import NetSynth.Proofs.Reports

/-! The same steps from two designs, the later of which has grown out of the earlier one. The new
objects of the two runs correspond, by a renaming of the nets that are new. -/
namespace NetSynth

def NetRef.map (rename : NetId → NetId) : NetRef → NetRef
  | .whole id => .whole (rename id)
  | .bit id index => .bit (rename id) index

@[simp] theorem NetRef.net_map (rename : NetId → NetId) (ref : NetRef) :
    (ref.map rename).net = rename ref.net := by
  cases ref <;> rfl

def Connection.map (rename : NetId → NetId) (connection : Connection) : Connection :=
  ⟨connection.pin, connection.ref.map rename⟩

def Pin.map (rename : NetId → NetId) (pin : Pin) : Pin :=
  ⟨pin.toConnection.map rename, pin.direction⟩

theorem DeviceKind.connect_map (kind : DeviceKind) (rename : NetId → NetId)
    (connections : List Connection) :
    kind.connect (connections.map (.map rename)) = (kind.connect connections).map (.map rename) := by
  simp only [connect, List.map_map]
  rfl

/-- What a net is, apart from its name, its place in the source and the pins on it. -/
structure Net.Alike (net other : Net) : Prop where
  type : other.toValueType = net.toValueType
  scope : other.scope = net.scope
  memory : other.memory = net.memory

/-- The other device is the same at other nets. -/
structure Device.Copies (rename : NetId → NetId) (device other : Device) : Prop where
  kind : other.kind = device.kind
  scope : other.scope = device.scope
  pins : other.pins = device.pins.map (.map rename)
  span : other.span = device.span

namespace Design

/-- The net of a run from the later design that corresponds to one of a run from the first: an old
net is itself, and new nets are counted from where their run has started. -/
def rename (first later : Design) (id : NetId) : NetId :=
  if id.index < first.nets.size then id
  else ⟨later.nets.size + (id.index - first.nets.size)⟩

def Renames (first later : Design) (id other : NetId) : Prop := other = first.rename later id

/-- Under a renaming the nets of two designs correspond, also in that they exist. -/
def Resembles (rename : NetId → NetId) (one two : Design) : Prop :=
  ∀ id, Option.Rel Net.Alike (one.net? id) (two.net? (rename id))

/-- The designs have grown from the first and from the later one by corresponding objects, and the
same problems were reported. -/
structure Aligned (first later one two : Design) : Prop where
  grown : first.Grows later
  growsOne : first.Grows one
  growsTwo : later.Grows two
  count : two.nets.size + first.nets.size = one.nets.size + later.nets.size
  nets : Resembles (first.rename later) one two
  devices : List.Forall₂ (Device.Copies (first.rename later)) (first.newDevices one)
    (later.newDevices two)
  log : ∃ problems, first.log.Adds one.log problems ∧ later.log.Adds two.log problems

variable {first later one two : Design} {rename : NetId → NetId}

theorem rename_old {id : NetId} (old : id.index < first.nets.size) : first.rename later id = id :=
  if_pos old

theorem rename_injective (grown : first.Grows later) :
    Function.Injective (first.rename later) := by
  intro id other same
  have more := grown.net_count
  have index := congrArg NetId.index same
  simp only [rename] at index
  cases id
  cases other
  congr 1
  split at index <;> split at index <;> dsimp only at * <;> omega

theorem Resembles.resolves_iff (nets : Resembles rename one two) (ref : NetRef) :
    two.Resolves (ref.map rename) ↔ one.Resolves ref := by
  have alike := nets ref.net
  rw [Resolves, Resolves, NetRef.net_map]
  generalize one.net? ref.net = found at alike
  generalize two.net? (rename ref.net) = found' at alike
  cases alike with
  | none => simp
  | some same => cases ref <;> simp [NetRef.map, same.type]

theorem Resembles.shownDomain (nets : Resembles rename one two) (ref : NetRef) :
    two.shownDomain (ref.map rename) = one.shownDomain ref := by
  have alike := nets ref.net
  rw [Design.shownDomain, Design.shownDomain, NetRef.net_map]
  generalize one.net? ref.net = found at alike
  generalize two.net? (rename ref.net) = found' at alike
  cases alike with
  | none => rfl
  | some same => exact congrArg ValueType.domain same.type

theorem Resembles.refWidth_iff (nets : Resembles rename one two) (ref : NetRef) (width : Nat) :
    two.refWidth (ref.map rename) = .ok width ↔ one.refWidth ref = .ok width := by
  rw [refWidth_eq_ok_iff, refWidth_eq_ok_iff, NetRef.net_map]
  have alike := nets ref.net
  generalize one.net? ref.net = found at alike
  generalize two.net? (rename ref.net) = found' at alike
  cases alike with
  | none => simp
  | some same => cases ref <;> simp [NetRef.map, NetRef.widthOn, same.type]

theorem Resembles.shownWidth (nets : Resembles rename one two) (ref : NetRef) :
    two.shownWidth (ref.map rename) = one.shownWidth ref := by
  have same := nets.refWidth_iff ref
  rw [Design.shownWidth, Design.shownWidth]
  cases shown : one.refWidth ref with
  | ok width => rw [(same width).mpr shown]
  | error fault =>
    cases shown' : two.refWidth (ref.map rename) with
    | ok width =>
      rw [(same width).mp shown'] at shown
      cases shown
    | error fault' => rfl

/-- The contract of a kind asks for nothing that the renaming changes. -/
theorem Resembles.keeps_iff (nets : Resembles rename one two) (kind : DeviceKind)
    (connections : List Connection) :
    two.Keeps kind (connections.map (.map rename)) ↔ one.Keeps kind connections := by
  have pins : (connections.map (.map rename)).map Connection.pin =
      connections.map Connection.pin := by
    rw [List.map_map]
    rfl
  have widths : ((connections.map (Connection.map rename)).filter (·.pin.isInput)).map
      (two.shownWidth ·.ref) =
        (connections.filter (·.pin.isInput)).map (one.shownWidth ·.ref) := by
    rw [List.filter_map, List.map_map]
    exact List.map_congr_left fun connection _ => nets.shownWidth connection.ref
  have domain : ∀ connection : Connection,
      two.shownDomain (connection.map rename).ref = one.shownDomain connection.ref :=
    fun connection => nets.shownDomain connection.ref
  constructor
  · intro kept
    have each := fun connection (member : connection ∈ connections) =>
      List.mem_map_of_mem (f := Connection.map rename) member
    constructor
    · rw [← pins]
      exact kept.pins
    · intro connection member
      exact (nets.resolves_iff _).mp (kept.refs _ (each _ member))
    · intro connection member width asked
      exact (nets.refWidth_iff _ _).mp (kept.widths _ (each _ member) width asked)
    · intro logic connection member
      rw [← domain]
      exact kept.vectors logic _ (each _ member)
    · intro width inputs isConcat
      rw [← widths]
      exact kept.sum width inputs isConcat
    · obtain ⟨common, same⟩ := kept.domains
      use common
      intro connection member listed
      rw [← domain]
      exact same _ (each _ member) listed
  · intro kept
    constructor
    · rw [pins]
      exact kept.pins
    · rw [List.forall_mem_map]
      intro connection member
      exact (nets.resolves_iff _).mpr (kept.refs connection member)
    · rw [List.forall_mem_map]
      intro connection member width asked
      exact (nets.refWidth_iff _ _).mpr (kept.widths connection member width asked)
    · intro logic
      rw [List.forall_mem_map]
      intro connection member
      rw [domain]
      exact kept.vectors logic connection member
    · intro width inputs isConcat
      rw [widths]
      exact kept.sum width inputs isConcat
    · obtain ⟨common, same⟩ := kept.domains
      use common
      rw [List.forall_mem_map]
      intro connection member listed
      rw [domain]
      exact same connection member listed

theorem Resembles.refl_of_grows (grown : first.Grows later) :
    Resembles (first.rename later) first later := by
  intro id
  cases known : first.net? id with
  | none =>
    have new : ¬id.index < first.nets.size := by
      intro inside
      have stored : first.net? id = some first.nets[id.index] := Array.getElem?_eq_getElem inside
      rw [known] at stored
      cases stored
    have absent : later.net? (first.rename later id) = none := by
      rw [Design.rename, if_neg new]
      exact Array.getElem?_eq_none (Nat.le_add_right _ _)
    rw [absent]
    exact .none
  | some net =>
    obtain ⟨net', known', type, scope, memory⟩ := grown.net known
    rw [rename_old (first.net?_lt known), known']
    exact .some ⟨type, scope, memory⟩

theorem Aligned.refl (grown : first.Grows later) : Aligned first later first later where
  grown := grown
  growsOne := .refl first
  growsTwo := .refl later
  count := Nat.add_comm _ _
  nets := .refl_of_grows grown
  devices := by
    rw [newDevices_self, newDevices_self]
    exact .nil
  log := ⟨[], first.log.adds_nil, later.log.adds_nil⟩

theorem size_foldl_attach (device : DeviceId) (connections : List Connection) (nets : Array Net) :
    (connections.foldl (attach device) nets).size = nets.size := by
  induction connections generalizing nets with
  | nil => rfl
  | cons connection rest ih => rw [List.foldl_cons, ih, attach, Array.size_modify]

namespace Aligned

variable (aligned : Aligned first later one two)
include aligned

theorem scopes (id : ScopeId) : Option.Rel (fun _ _ => True) (one.scope? id) (two.scope? id) := by
  cases known : first.scope? id with
  | none =>
    rw [aligned.growsOne.noScopes known, aligned.growsTwo.noScopes (aligned.grown.noScopes known)]
    exact .none
  | some scope =>
    obtain ⟨counter, _, inOne⟩ := aligned.growsOne.scopes known
    obtain ⟨counter', _, inLater⟩ := aligned.grown.scopes known
    obtain ⟨counter'', _, inTwo⟩ := aligned.growsTwo.scopes inLater
    rw [inOne, inTwo]
    exact .some trivial

theorem function? (id : FunctionId) : two.function? id = one.function? id := by
  rw [aligned.growsTwo.function, aligned.growsOne.function, aligned.grown.function]

theorem text? {name : Name} {text : String} (known : first.names.text? name = some text) :
    one.names.text? name = some text ∧ two.names.text? name = some text :=
  ⟨aligned.growsOne.text? known, (aligned.grown.trans aligned.growsTwo).text? known⟩

theorem kinds :
    (later.newDevices two).map Device.kind = (first.newDevices one).map Device.kind := by
  have copies := aligned.devices
  generalize first.newDevices one = devices at copies
  generalize later.newDevices two = devices' at copies
  induction copies with
  | nil => rfl
  | cons copy _ ih => rw [List.map_cons, List.map_cons, ih, copy.kind]

/-- The next nets of the two runs correspond. -/
theorem rename_next : first.rename later ⟨one.nets.size⟩ = ⟨two.nets.size⟩ := by
  have more := aligned.growsOne.net_count
  have count := aligned.count
  rw [Design.rename, if_neg (Nat.not_lt.mpr more)]
  congr 1
  dsimp only
  omega

theorem index_rename_eq_iff (id : NetId) :
    (first.rename later id).index = two.nets.size ↔ id.index = one.nets.size := by
  have moreOne := aligned.growsOne.net_count
  have moreTwo := aligned.growsTwo.net_count
  have more := aligned.grown.net_count
  have count := aligned.count
  rw [Design.rename]
  split
  · omega
  · dsimp only
    omega

theorem report (problem : Problem) (span : Span) : Aligned first later
    { one with log := one.log.report (problem.diagnostic span) }
    { two with log := two.log.report (problem.diagnostic span) } where
  grown := aligned.grown
  growsOne := aligned.growsOne.trans (grows_report one _)
  growsTwo := aligned.growsTwo.trans (grows_report two _)
  count := aligned.count
  nets := aligned.nets
  devices := aligned.devices
  log := by
    obtain ⟨problems, onOne, onTwo⟩ := aligned.log
    exact ⟨_, onOne.append (one.log.adds_report problem span),
      onTwo.append (two.log.adds_report problem span)⟩

/-- The names that two runs take need not be the same. -/
theorem nameLocal (scope : ScopeId) (counter counter' : Nat) :
    Aligned first later (one.nameLocal scope counter).2 (two.nameLocal scope counter').2 where
  grown := aligned.grown
  growsOne := aligned.growsOne.trans (one.grows_nameLocal scope counter)
  growsTwo := aligned.growsTwo.trans (two.grows_nameLocal scope counter')
  count := aligned.count
  nets := aligned.nets
  devices := aligned.devices
  log := aligned.log

theorem pushNet (scope : ScopeId) (name name' : Name) (type : ValueType) (span : Span) :
    Aligned first later (one.pushNet scope name .implicit type true span).2
      (two.pushNet scope name' .implicit type true span).2 where
  grown := aligned.grown
  growsOne := aligned.growsOne.trans (grows_pushNet one scope name type span)
  growsTwo := aligned.growsTwo.trans (grows_pushNet two scope name' type span)
  count := by
    have count := aligned.count
    simp only [Design.pushNet, Array.size_push]
    omega
  nets := by
    intro id
    rw [net?_pushNet, net?_pushNet]
    by_cases next : id.index = one.nets.size
    · rw [if_pos next, if_pos ((aligned.index_rename_eq_iff id).mpr next)]
      exact .some ⟨rfl, rfl, rfl⟩
    · rw [if_neg next, if_neg (mt (aligned.index_rename_eq_iff id).mp next)]
      exact aligned.nets id
  devices := aligned.devices
  log := aligned.log

theorem pushDevice (scope : ScopeId) (name name' : Name) (kind : DeviceKind)
    (connections : List Connection) (span : Span) :
    Aligned first later (one.pushDevice scope name kind connections span).2
      (two.pushDevice scope name' kind (connections.map (.map (first.rename later))) span).2 where
  grown := aligned.grown
  growsOne := aligned.growsOne.trans (grows_pushDevice one scope name kind connections span)
  growsTwo := aligned.growsTwo.trans (grows_pushDevice two scope name' kind _ span)
  count := by
    have count := aligned.count
    simp only [Design.pushDevice, size_foldl_attach]
    exact count
  nets := by
    intro id
    rw [net?_pushDevice, net?_pushDevice]
    have alike := aligned.nets id
    generalize one.net? id = found at alike
    generalize two.net? (first.rename later id) = found' at alike
    cases alike with
    | none => exact .none
    | some same => exact .some ⟨same.type, same.scope, same.memory⟩
  devices := by
    rw [newDevices_pushDevice one aligned.growsOne, newDevices_pushDevice two aligned.growsTwo]
    exact List.rel_append aligned.devices (.cons ⟨rfl, rfl, kind.connect_map _ _, rfl⟩ .nil)
  log := aligned.log

end Aligned
end Design
end NetSynth
