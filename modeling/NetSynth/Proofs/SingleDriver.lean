import NetSynth.Proofs.Disciplined

/-! Synthesis drives its own nets once each and no other net at all. -/
namespace NetSynth

def Net.drivers (net : Net) : List Endpoint :=
  net.endpoints.toList.filter (·.pin.direction == .output)

/-- Old nets keep their drivers. A new net has at most one, and it is a pin of a new device. -/
structure Design.DrivesOnce (before after : Design) : Prop where
  kept : ∀ {id net}, before.net? id = some net →
    ∃ net', after.net? id = some net' ∧ net'.drivers = net.drivers
  single : ∀ {id net}, before.net? id = none → after.net? id = some net → net.drivers.length ≤ 1
  byNew : ∀ {id net endpoint}, before.net? id = none → after.net? id = some net →
    endpoint ∈ net.drivers → before.devices.size ≤ endpoint.device.index ∧
      ∃ device, after.device? endpoint.device = some device ∧
        ⟨endpoint.pin, .whole id⟩ ∈ device.connections

/-- No new net is without a driver. -/
def Design.NoneFloating (before after : Design) : Prop :=
  ∀ ⦃id net⦄, before.net? id = none → after.net? id = some net → net.drivers.length = 1

/-- The results of several requests to one design and the design after them. A request that stops
does not keep the next one from being tried. -/
def Design.synthesized : List (SynthesisSettings × Expr) → Design →
    List (Except Stop (Option NetId)) × Design
  | [], design => ([], design)
  | (settings, expr) :: rest, design =>
      let (result, mid) := (synthesize settings expr).runOn design
      let (results, after) := synthesized rest mid
      (result :: results, after)

namespace Wiring

theorem drivers_append (net : Net) (added : Array Endpoint) :
    ({ net with endpoints := net.endpoints ++ added } : Net).drivers =
      net.drivers ++ added.toList.filter (·.pin.direction == .output) := by
  simp [Net.drivers]

theorem drives_pinsOn {out : NetId} {connections : List Connection}
    (drives : Drives out connections) (device : DeviceId) (id : NetId) :
    ∃ pin, ⟨pin, .whole out⟩ ∈ connections ∧
      (Design.pinsOn device connections id).filter (·.pin.direction == .output) =
        if id = out then [⟨device, pin⟩] else [] := by
  obtain ⟨connection, only, whole⟩ := List.map_eq_singleton_iff.mp drives
  obtain ⟨pin, ref⟩ := connection
  subst whole
  have member : ⟨pin, .whole out⟩ ∈ connections :=
    (List.mem_filter.mp (only ▸ List.mem_singleton_self _)).1
  refine ⟨pin, member, ?_⟩
  have swapped : (Design.pinsOn device connections id).filter (·.pin.direction == .output) =
      ((connections.filter (·.pin.direction == .output)).filter (·.ref.net == id)).map
        fun connection => ⟨device, connection.pin⟩ := by
    simp only [Design.pinsOn, List.filter_map, List.filter_filter, Bool.and_comm]
    rfl
  rw [swapped, only]
  by_cases same : id = out
  · simp [same]
  · have other : out ≠ id := fun h => same h.symm
    simp [same, other]

/-- A net is driven once, by a device that the start does not have. -/
def DrivenByNew (start design : Design) (id : NetId) (net : Net) : Prop :=
  ∃ endpoint device, net.drivers = [endpoint] ∧ start.devices.size ≤ endpoint.device.index ∧
    design.device? endpoint.device = some device ∧ ⟨endpoint.pin, .whole id⟩ ∈ device.connections

/-- How the nets of a design are driven while some of the new ones still wait. -/
structure Wired (start : Design) (pending : List NetId) (design : Design) : Prop where
  grows : start.Grows design
  nodup : pending.Nodup
  fresh : ∀ id ∈ pending, start.net? id = none ∧ id.index < design.nets.size
  kept : ∀ {id net net'}, start.net? id = some net → design.net? id = some net' →
    net'.drivers = net.drivers
  waiting : ∀ {id net}, id ∈ pending → design.net? id = some net → net.drivers = []
  driven : ∀ {id net}, start.net? id = none → id ∉ pending → design.net? id = some net →
    DrivenByNew start design id net

variable {start design : Design} {pending : List NetId}

theorem DrivenByNew.later {id : NetId} {net : Net} (driven : DrivenByNew start design id net)
    {later : Design} (grows : design.Grows later) : DrivenByNew start later id net := by
  obtain ⟨endpoint, device, only, new, known, connected⟩ := driven
  exact ⟨endpoint, device, only, new, grows.device known, connected⟩

theorem wired_refl (start : Design) : Wired start [] start where
  grows := .refl start
  nodup := List.nodup_nil
  fresh := by simp
  kept := fun known known' => by
    obtain rfl := Option.some.inj (known.symm.trans known')
    rfl
  waiting := by simp
  driven := fun absent _ known => by simp [absent] at known

theorem Wired.drivesOnce (wired : Wired start pending design) : start.DrivesOnce design where
  kept := by
    intro id net known
    obtain ⟨added, found, _⟩ := wired.grows.nets known
    exact ⟨_, found, wired.kept known found⟩
  single := by
    intro id net absent known
    by_cases waits : id ∈ pending
    · simp [wired.waiting waits known]
    · obtain ⟨endpoint, _, only, _⟩ := wired.driven absent waits known
      simp [only]
  byNew := by
    intro id net endpoint absent known member
    by_cases waits : id ∈ pending
    · simp [wired.waiting waits known] at member
    · obtain ⟨endpoint', device, only, new, found, connected⟩ := wired.driven absent waits known
      obtain rfl : endpoint = endpoint' := by simpa [only] using member
      exact ⟨new, device, found, connected⟩

theorem Wired.noneFloating (wired : Wired start [] design) : start.NoneFloating design := by
  intro id net absent known
  obtain ⟨endpoint, _, only, _⟩ := wired.driven absent (by simp) known
  simp [only]

/-- Steps that touch neither a net nor a device keep the wiring. -/
theorem Wired.same (wired : Wired start pending design) {after : Design}
    (grows : design.Grows after) (nets : after.nets = design.nets) :
    Wired start pending after where
  grows := wired.grows.trans grows
  nodup := wired.nodup
  fresh := by simpa [nets] using wired.fresh
  kept := fun known known' => wired.kept known (by simpa [Design.net?, nets] using known')
  waiting := fun member known => wired.waiting member (by simpa [Design.net?, nets] using known)
  driven := fun absent waits known =>
    (wired.driven absent waits (by simpa [Design.net?, nets] using known)).later grows

theorem Wired.pushNet (wired : Wired start pending design) (scope : ScopeId) (name : Name)
    (type : ValueType) (span : Span) : Wired start (⟨design.nets.size⟩ :: pending)
      (design.pushNet scope name .implicit type true span).2 := by
  have grows := design.grows_pushNet scope name type span
  have count : (design.pushNet scope name .implicit type true span).2.nets.size =
      design.nets.size + 1 := by simp [Design.pushNet]
  have absent : start.net? ⟨design.nets.size⟩ = none := by
    simpa [Design.net?] using wired.grows.net_count
  have old : ∀ {id net}, id ≠ ⟨design.nets.size⟩ →
      (design.pushNet scope name .implicit type true span).2.net? id = some net →
      design.net? id = some net := by
    intro id net other known
    rwa [Design.net?_pushNet, if_neg fun h => other (by cases id; simp_all)] at known
  refine ⟨wired.grows.trans grows, ?_, ?_, ?_, ?_, ?_⟩
  · refine List.nodup_cons.mpr ⟨fun member => ?_, wired.nodup⟩
    exact Nat.lt_irrefl _ (wired.fresh _ member).2
  · intro id member
    rcases List.mem_cons.mp member with rfl | member
    · exact ⟨absent, by simp [count]⟩
    · have fresh := wired.fresh id member
      exact ⟨fresh.1, by omega⟩
  · intro id net net' known known'
    refine wired.kept known (old (fun same => ?_) known')
    simp [same, absent] at known
  · intro id net member known
    by_cases last : id = ⟨design.nets.size⟩
    · rw [last, Design.net?_pushNet, if_pos rfl] at known
      cases known
      rfl
    · exact wired.waiting ((List.mem_cons.mp member).resolve_left last) (old last known)
  · intro id net new waits known
    simp only [List.mem_cons, not_or] at waits
    exact (wired.driven new waits.2 (old waits.1 known)).later grows

theorem Wired.pushDevice {out : NetId} (wired : Wired start (out :: pending) design)
    {connections : List Connection} (drives : Drives out connections) (scope : ScopeId)
    (name : Name) (kind : DeviceKind) (span : Span) :
    Wired start pending (design.pushDevice scope name kind connections span).2 := by
  have grows := design.grows_pushDevice scope name kind connections span
  have nodup := List.nodup_cons.mp wired.nodup
  have stored : (design.pushDevice scope name kind connections span).2.device?
      ⟨design.devices.size⟩ =
        some ⟨⟨design.devices.size⟩, name, scope, kind, kind.connect connections, span⟩ := by
    simp [Design.pushDevice, Design.device?]
  have look : ∀ {id net}, (design.pushDevice scope name kind connections span).2.net? id = some net →
      ∃ old pin, design.net? id = some old ∧ ⟨pin, .whole out⟩ ∈ connections ∧
        net.drivers = old.drivers ++ if id = out then [⟨⟨design.devices.size⟩, pin⟩] else [] := by
    intro id net known
    rw [Design.net?_pushDevice, Option.map_eq_some_iff] at known
    obtain ⟨old, found, rfl⟩ := known
    obtain ⟨pin, member, pins⟩ := drives_pinsOn drives ⟨design.devices.size⟩ id
    exact ⟨old, pin, found, member, by rw [drivers_append, pins]⟩
  refine ⟨wired.grows.trans grows, nodup.2, ?_, ?_, ?_, ?_⟩
  · intro id member
    have fresh := wired.fresh id (List.mem_cons_of_mem _ member)
    exact ⟨fresh.1, Nat.lt_of_lt_of_le fresh.2 grows.net_count⟩
  · intro id net net' known known'
    obtain ⟨old, pin, found, _, drivers⟩ := look known'
    have other : id ≠ out := by
      rintro rfl
      simp [(wired.fresh id List.mem_cons_self).1] at known
    rw [drivers, if_neg other, List.append_nil, wired.kept known found]
  · intro id net member known
    obtain ⟨old, pin, found, _, drivers⟩ := look known
    have other : id ≠ out := fun same => nodup.1 (same ▸ member)
    rw [drivers, if_neg other, List.append_nil,
      wired.waiting (List.mem_cons_of_mem _ member) found]
  · intro id net new waits known
    obtain ⟨old, pin, found, connected, drivers⟩ := look known
    by_cases same : id = out
    · subst same
      rw [if_pos rfl, wired.waiting List.mem_cons_self found, List.nil_append] at drivers
      exact ⟨_, _, drivers, wired.grows.device_count, stored, by simpa using connected⟩
    · rw [if_neg same, List.append_nil] at drivers
      have driven := wired.driven new (by simp [same, waits]) found
      rw [DrivenByNew, drivers]
      exact driven.later grows

/-- The discipline of driving each local net once. -/
def discipline (start : Design) : Discipline where
  holds := Wired start
  stopped := fun design => start.Grows design ∧ start.DrivesOnce design
  usable := fun _ _ => True
  stop := fun wired => ⟨wired.grows, wired.drivesOnce⟩
  report := fun diagnostic wired => wired.same (Design.grows_report _ diagnostic) rfl
  usable_grows := fun _ _ => trivial
  usable_word := fun _ _ _ _ => trivial
  localName := fun wired _ =>
    have named := wired.same (Design.grows_nameLocal _ _ _) rfl
    ⟨named.grows, named.drivesOnce⟩
  localNet := fun span wired _ _ =>
    (wired.same (Design.grows_nameLocal _ _ _) rfl).pushNet _ _ _ span
  device := fun span wired _ _ drives _ =>
    ⟨(wired.same (Design.grows_nameLocal _ _ _) rfl).pushDevice drives _ _ _ span, trivial⟩

theorem drivesOnce_trans {before mid after : Design} (grows : before.Grows mid)
    (grows' : mid.Grows after) (first : before.DrivesOnce mid) (second : mid.DrivesOnce after) :
    before.DrivesOnce after where
  kept := by
    intro id net known
    obtain ⟨net', found, same⟩ := first.kept known
    obtain ⟨net'', found', same'⟩ := second.kept found
    exact ⟨net'', found', same'.trans same⟩
  single := by
    intro id net absent known
    cases found : mid.net? id with
    | none => exact second.single found known
    | some net' =>
      obtain ⟨net'', found', same⟩ := second.kept found
      obtain rfl := Option.some.inj (known.symm.trans found')
      exact same ▸ first.single absent found
  byNew := by
    intro id net endpoint absent known member
    cases found : mid.net? id with
    | none =>
      obtain ⟨new, device, rest⟩ := second.byNew found known member
      exact ⟨Nat.le_trans grows.device_count new, device, rest⟩
    | some net' =>
      obtain ⟨net'', found', same⟩ := second.kept found
      obtain rfl := Option.some.inj (known.symm.trans found')
      obtain ⟨new, device, stored, connected⟩ := first.byNew absent found (same ▸ member)
      exact ⟨new, device, grows'.device stored, connected⟩

theorem noneFloating_trans {before mid after : Design} (once : mid.DrivesOnce after)
    (first : before.NoneFloating mid) (second : mid.NoneFloating after) :
    before.NoneFloating after := by
  intro id net absent known
  cases found : mid.net? id with
  | none => exact second found known
  | some net' =>
    obtain ⟨net'', found', same⟩ := once.kept found
    obtain rfl := Option.some.inj (known.symm.trans found')
    exact same ▸ first absent found

/-- One request, whatever it comes to. -/
theorem synthesize_wires (settings : SynthesisSettings) (expr : Expr) (design : Design) :
    let run := (synthesize settings expr).runOn design
    design.Grows run.2 ∧ design.DrivesOnce run.2 ∧
      (run.1.isOk → design.NoneFloating run.2) := by
  obtain ⟨grows, kept⟩ := (discipline design).synthesize settings expr (fun _ _ => trivial)
    (wired_refl design)
  refine ⟨grows, ?_⟩
  rcases kept with wired | ⟨stopped, wired⟩
  · exact ⟨wired.drivesOnce, fun _ => wired.noneFloating⟩
  · exact ⟨wired.2, by simp [stopped]⟩

theorem synthesized_wires (calls : List (SynthesisSettings × Expr)) (design : Design) :
    let run := design.synthesized calls
    design.Grows run.2 ∧ design.DrivesOnce run.2 ∧
      ((∀ result ∈ run.1, result.isOk) → design.NoneFloating run.2) := by
  induction calls generalizing design with
  | nil =>
    have wired := wired_refl design
    exact ⟨.refl design, wired.drivesOnce, fun _ => wired.noneFloating⟩
  | cons call rest ih =>
    obtain ⟨settings, expr⟩ := call
    obtain ⟨grows, once, driven⟩ := synthesize_wires settings expr design
    obtain ⟨grows', once', driven'⟩ := ih ((synthesize settings expr).runOn design).2
    refine ⟨grows.trans grows', drivesOnce_trans grows grows' once once', fun allOk => ?_⟩
    have firstOk := allOk _ List.mem_cons_self
    have restOk := driven' fun result member => allOk result (List.mem_cons_of_mem _ member)
    exact noneFloating_trans once' (driven firstOk) restOk

end Wiring

/-- A request drives each of its nets at most once and no other net, and leaves none of them
without a driver unless it stops. Any run of requests does the same, so it never gives a net a
second driver. -/
theorem synthesis_drives_once (design : Design) :
    (∀ settings expr, let run := (synthesize settings expr).runOn design
      design.DrivesOnce run.2 ∧ (run.1.isOk → design.NoneFloating run.2)) ∧
    ∀ calls, let run := design.synthesized calls
      design.DrivesOnce run.2 ∧ ((∀ result ∈ run.1, result.isOk) → design.NoneFloating run.2) ∧
      ∀ id net, run.2.net? id = some net →
        (∀ old, design.net? id = some old → old.drivers.length ≤ 1) → net.drivers.length ≤ 1 := by
  refine ⟨fun settings expr => (Wiring.synthesize_wires settings expr design).2, fun calls => ?_⟩
  obtain ⟨_, once, driven⟩ := Wiring.synthesized_wires calls design
  refine ⟨once, driven, fun id net known atMostOne => ?_⟩
  cases found : design.net? id with
  | none => exact once.single found known
  | some old =>
    obtain ⟨net', found', same⟩ := once.kept found
    obtain rfl := Option.some.inj (known.symm.trans found')
    exact same ▸ atMostOne old found

end NetSynth
