import NetSynth.Proofs.Disciplined
import NetSynth.Proofs.Meaning
import NetSynth.Proofs.Steps

/-! New devices stand in an order in which each reads only nets that were there before or that an
earlier device drives, and drives a net that nothing before it reads or drives. One evaluation in
that order satisfies all of them at once. -/
namespace NetSynth

def Design.Known (start : Design) (devices : List Device) (id : NetId) : Prop :=
  (start.net? id).isSome ∨ ∃ device ∈ devices, Drives id device.connections

/-- Each device reads what is known before it, and drives a net that is not. -/
inductive Design.Ordered (start : Design) : List Device → Prop
  | nil : Ordered start []
  | snoc {earlier : List Device} {device : Device} {out : NetId} (ordered : Ordered start earlier)
      (directed : device.Directed) (drives : Drives out device.connections)
      (fresh : ¬start.Known earlier out)
      (reads : ∀ connection ∈ device.connections, connection.pin.direction = .input →
        start.Known earlier connection.ref.net) : Ordered start (earlier ++ [device])

theorem Drives.unique {out out' : NetId} {connections : List Connection}
    (drives : Drives out connections) (drives' : Drives out' connections) : out = out' := by
  have same := drives.symm.trans drives'
  simpa using same

namespace Design.Known

variable {start : Design} {devices : List Device} {id : NetId}

theorem append (known : start.Known devices id) (more : List Device) :
    start.Known (devices ++ more) id :=
  known.imp_right fun ⟨device, member, drives⟩ => ⟨device, List.mem_append_left _ member, drives⟩

theorem snoc_iff {device : Device} {out : NetId} (drives : Drives out device.connections) :
    start.Known (devices ++ [device]) id ↔ start.Known devices id ∨ id = out := by
  constructor
  · rintro (old | ⟨device', member, drives'⟩)
    · exact .inl (.inl old)
    · rcases List.mem_append.mp member with before | last
      · exact .inl (.inr ⟨device', before, drives'⟩)
      · obtain rfl := List.mem_singleton.mp last
        exact .inr (drives'.unique drives)
  · rintro (known | rfl)
    · exact known.append _
    · exact .inr ⟨device, by simp, drives⟩

end Design.Known

/-- The word on the output depends on the words on input pins only. -/
def DeviceMeaning.ReadsInputs (meaning : DeviceMeaning) : Prop :=
  ∀ ⦃first second kind⦄, (∀ pin, pin.direction = .input → first pin = second pin) →
    meaning first kind = meaning second kind

theorem DeviceKind.compute?_readsInputs : DeviceMeaning.ReadsInputs compute? := by
  intro first second kind same
  have operandA := same .dataA rfl
  have operandB := same .dataB rfl
  have select := same .select rfl
  have vector := same .vector rfl
  have data index := same (.data index) rfl
  have input index := same (.input index) rfl
  cases kind with
  | partSelect width inputWidth start => cases start <;> simp [compute?, vector]
  | _ => simp [compute?, operandA, operandB, select, data, input]

theorem pinWord_congr {connections : List Connection} {first second : Valuation} {pin : PinName}
    (same : ∀ connection ∈ connections, connection.pin = pin →
      first connection.ref.net = second connection.ref.net) :
    pinWord first connections pin = pinWord second connections pin := by
  unfold pinWord
  split
  · rename_i connection found
    have named : connection.pin = pin := by simpa using List.find?_some found
    have equal := same connection (List.mem_of_find?_eq_some found) named
    cases shape : connection.ref <;> simp_all [NetRef.read, NetRef.net]
  · rfl

namespace Device

variable {meaning : DeviceMeaning} {device : Device} {words : Valuation} {out : NetId}

theorem settleBy_apply (drives : Drives out device.connections) (words : Valuation) (id : NetId) :
    device.settleBy meaning words id = if id = out then
      (meaning (pinWord words device.connections) device.kind).getD (words id) else words id := by
  unfold Drives at drives
  rw [settleBy, drives]
  cases meaning (pinWord words device.connections) device.kind <;> simp

theorem settleBy_other (drives : Drives out device.connections) {id : NetId} (other : id ≠ out) :
    device.settleBy meaning words id = words id := by
  rw [settleBy_apply drives, if_neg other]

theorem settleBy_out (drives : Drives out device.connections) {word : Word}
    (computes : meaning (pinWord words device.connections) device.kind = some word) :
    device.settleBy meaning words out = word := by
  rw [settleBy_apply drives, if_pos rfl, computes, Option.getD_some]

end Device

namespace Design.Ordered

variable {start : Design} {devices : List Device} {meaning : DeviceMeaning}

/-- Nets that were there before keep their words. -/
theorem keepsBy (ordered : start.Ordered devices) (meaning : DeviceMeaning) (words : Valuation)
    {id : NetId} (old : (start.net? id).isSome) :
    devices.foldl (Device.settleBy meaning) words id = words id := by
  induction ordered with
  | nil => rfl
  | @snoc earlier device out _ _ drives fresh _ ih =>
    have other : id ≠ out := fun same => fresh (.inl (same ▸ old))
    rw [List.foldl_append, List.foldl_cons, List.foldl_nil, Device.settleBy_other drives other, ih]

/-- What a device reads is known before the devices after it. -/
theorem reads (ordered : start.Ordered devices) {device : Device} (member : device ∈ devices)
    {connection : Connection} (connected : connection ∈ device.connections)
    (input : connection.pin.direction = .input) : start.Known devices connection.ref.net := by
  induction ordered with
  | nil => cases member
  | snoc _ _ _ _ reads ih =>
    rcases List.mem_append.mp member with before | last
    · exact (ih before).append _
    · obtain rfl := List.mem_singleton.mp last
      exact (reads connection connected input).append _

/-- What every device computes in the end is on its output. The devices after it change neither
what it reads nor what it drives. -/
theorem satisfiesBy (ordered : start.Ordered devices) (inputs : meaning.ReadsInputs)
    (words : Valuation) {device : Device} (member : device ∈ devices) {out : NetId}
    (drives : Drives out device.connections) {word : Word}
    (computes : meaning (pinWord (devices.foldl (Device.settleBy meaning) words)
      device.connections) device.kind = some word) :
    devices.foldl (Device.settleBy meaning) words out = word := by
  induction ordered generalizing out with
  | nil => cases member
  | @snoc earlier last lastOut ordered _ drivesLast fresh reads ih =>
    rw [List.foldl_append, List.foldl_cons, List.foldl_nil] at computes ⊢
    -- The last device drives nothing that this one reads, so it computes the same before and after.
    have unread : ∀ connection ∈ device.connections, connection.pin.direction = .input →
        connection.ref.net ≠ lastOut := by
      intro connection connected input same
      refine fresh (same ▸ ?_)
      rcases List.mem_append.mp member with before | final
      · exact ordered.reads before connected input
      · obtain rfl := List.mem_singleton.mp final
        exact reads connection connected input
    have same : meaning (pinWord (last.settleBy meaning
          (earlier.foldl (Device.settleBy meaning) words)) device.connections) device.kind =
        meaning (pinWord (earlier.foldl (Device.settleBy meaning) words) device.connections)
          device.kind := by
      apply inputs
      intro pin input
      apply pinWord_congr
      intro connection connected named
      exact Device.settleBy_other drivesLast (unread connection connected (named ▸ input))
    rw [same] at computes
    rcases List.mem_append.mp member with before | final
    · have other : out ≠ lastOut := fun equal => fresh (equal ▸ .inr ⟨device, before, drives⟩)
      rw [Device.settleBy_other drivesLast other]
      exact ih before drives computes
    · obtain rfl := List.mem_singleton.mp final
      obtain rfl := drives.unique drivesLast
      exact Device.settleBy_out drives computes

end Design.Ordered

/-- The devices that a run has made are in order, and the nets that wait for a driver are new to
them. -/
structure Design.InOrder (start : Design) (pending : List NetId) (design : Design) : Prop where
  grows : start.Grows design
  ordered : start.Ordered (start.newDevices design)
  nodup : pending.Nodup
  waiting : ∀ id ∈ pending,
    ¬start.Known (start.newDevices design) id ∧ id.index < design.nets.size
  inside : ∀ {id}, start.Known (start.newDevices design) id → id.index < design.nets.size

namespace Design.InOrder

variable {start design : Design} {pending : List NetId}

theorem refl (start : Design) : start.InOrder [] start where
  grows := .refl start
  ordered := by
    rw [newDevices_self]
    exact .nil
  nodup := List.nodup_nil
  waiting := by simp
  inside := by
    rw [newDevices_self]
    rintro id (old | ⟨_, member, _⟩)
    · obtain ⟨net, known⟩ := Option.isSome_iff_exists.mp old
      exact start.net?_lt known
    · cases member

/-- Steps that touch neither a net nor a device keep the order. -/
theorem same (order : start.InOrder pending design) {after : Design} (grows : design.Grows after)
    (nets : after.nets = design.nets) (devices : after.devices = design.devices) :
    start.InOrder pending after := by
  have equal : start.newDevices after = start.newDevices design := by rw [newDevices, devices]; rfl
  refine ⟨order.grows.trans grows, ?_, order.nodup, ?_, ?_⟩ <;> simp only [equal, nets]
  · exact order.ordered
  · exact order.waiting
  · exact order.inside

theorem pushNet (order : start.InOrder pending design) (scope : ScopeId) (name : Name)
    (type : ValueType) (span : Span) : start.InOrder (⟨design.nets.size⟩ :: pending)
      (design.pushNet scope name .implicit type true span).2 := by
  have count : (design.pushNet scope name .implicit type true span).2.nets.size =
      design.nets.size + 1 := by simp [Design.pushNet]
  refine ⟨order.grows.trans (design.grows_pushNet scope name type span), order.ordered, ?_, ?_, ?_⟩
  · refine List.nodup_cons.mpr ⟨fun member => ?_, order.nodup⟩
    exact Nat.lt_irrefl _ (order.waiting _ member).2
  · rw [count]
    intro id member
    rcases List.mem_cons.mp member with rfl | member
    · exact ⟨fun known => Nat.lt_irrefl _ (order.inside known), Nat.lt_succ_self _⟩
    · have waits := order.waiting id member
      exact ⟨waits.1, Nat.lt_succ_of_lt waits.2⟩
  · rw [count]
    exact fun known => Nat.lt_succ_of_lt (order.inside known)

theorem pushDevice {out : NetId} (order : start.InOrder (out :: pending) design)
    {connections : List Connection} (drives : Drives out connections)
    (reads : ∀ connection ∈ connections, connection.pin.direction = .input →
      start.Known (start.newDevices design) connection.ref.net) (scope : ScopeId) (name : Name)
    (kind : DeviceKind) (span : Span) :
    start.InOrder pending (design.pushDevice scope name kind connections span).2 := by
  have nodup := List.nodup_cons.mp order.nodup
  have waits := order.waiting out List.mem_cons_self
  have grows := design.grows_pushDevice scope name kind connections span
  have devices := newDevices_pushDevice design order.grows scope name kind connections span
  have made := drives.connect ⟨design.devices.size⟩ name scope kind span
  refine ⟨order.grows.trans grows, ?_, nodup.2, ?_, ?_⟩
  · rw [devices]
    refine .snoc order.ordered (kind.directed_connect _ _ _ _ _) made waits.1 ?_
    simpa using reads
  · rw [devices]
    intro id member
    have waitsToo := order.waiting id (List.mem_cons_of_mem _ member)
    refine ⟨fun known => ?_, Nat.lt_of_lt_of_le waitsToo.2 grows.net_count⟩
    rcases (Known.snoc_iff made).mp known with before | rfl
    · exact waitsToo.1 before
    · exact nodup.1 member
  · rw [devices]
    intro id known
    refine Nat.lt_of_lt_of_le ?_ grows.net_count
    rcases (Known.snoc_iff made).mp known with before | rfl
    · exact order.inside before
    · exact waits.2

end Design.InOrder

/-- The words of every memory are nets that exist. -/
def Design.StoresWords (design : Design) : Prop :=
  ∀ ⦃id net words⦄, design.net? id = some net → net.memory = some words →
    ∀ word ∈ words.words, (design.net? word).isSome

theorem Design.WellFormed.storesWords {design : Design} (valid : design.WellFormed) :
    design.StoresWords := by
  intro id net words known named word member
  obtain ⟨stored, present, _⟩ := (valid.words known named).nets word member
  simp [present]

/-- The discipline of making devices in order. -/
def Design.StoresWords.ordering {start : Design} (stores : start.StoresWords) : Discipline where
  holds := start.InOrder
  stopped := fun design => ∃ pending, start.InOrder pending design
  usable := fun design id => start.Grows design ∧ start.Known (start.newDevices design) id
  stop := fun order => ⟨_, order⟩
  report := fun diagnostic order => order.same (Design.grows_report _ diagnostic) rfl rfl
  usable_grows := by
    rintro before after id grows ⟨grown, known⟩
    obtain ⟨more, same⟩ := @Design.newDevices_grows start _ _ grows
    exact ⟨grown.trans grows, same ▸ known.append more⟩
  usable_word := by
    intro design memory found words id usable stored named member
    cases known : start.net? memory with
    | none => simp [(usable.1.newNets known stored).2.2] at named
    | some old =>
      obtain ⟨found', stored', _, _, same⟩ := usable.1.net known
      obtain rfl := Option.some.inj (stored.symm.trans stored')
      exact ⟨usable.1, .inl (stores known (same.symm.trans named) id member)⟩
  localName := fun order _ => ⟨_, order.same (Design.grows_nameLocal _ _ _) rfl rfl⟩
  localNet := fun span order _ _ =>
    (order.same (Design.grows_nameLocal _ _ _) rfl rfl).pushNet _ _ _ span
  device := by
    intro out pending design scope found kind connections span order _ _ drives usable
    have named := order.same (design.grows_nameLocal scope found.nextLocal) rfl rfl
    have placed := named.pushDevice drives (fun connection member input =>
      (usable connection member input).2) scope (design.nameLocal scope found.nextLocal).1 kind span
    refine ⟨placed, placed.grows, ?_⟩
    rw [Design.newDevices_pushDevice _ named.grows]
    exact (Design.Known.snoc_iff (drives.connect _ _ _ _ _)).mpr (.inr rfl)

/-- Whatever a request comes to, the devices that it made are in order. -/
theorem Design.StoresWords.synthesize_inOrder {start : Design} (stores : start.StoresWords)
    (settings : SynthesisSettings) (expr : Expr)
    (named : ∀ id ∈ expr.nets, (start.net? id).isSome) :
    ∃ pending, start.InOrder pending ((synthesize settings expr).runOn start).2 := by
  have usable : ∀ id ∈ expr.nets, stores.ordering.usable start id :=
    fun id member => ⟨.refl start, .inl (named id member)⟩
  obtain ⟨_, order | ⟨_, stopped⟩⟩ := stores.ordering.synthesize settings expr usable (.refl start)
  · exact ⟨[], order⟩
  · exact stopped

theorem Design.WellFormed.synthesize_ordered {start : Design} (valid : start.WellFormed)
    (settings : SynthesisSettings) (expr : Expr)
    (named : ∀ id ∈ expr.nets, (start.net? id).isSome) :
    start.Ordered (start.newDevices ((synthesize settings expr).runOn start).2) := by
  obtain ⟨_, order⟩ := valid.storesWords.synthesize_inOrder settings expr named
  exact order.ordered

end NetSynth
