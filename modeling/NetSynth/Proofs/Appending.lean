import NetSynth.Proofs.Interning
import NetSynth.Proofs.SingleDriver

/-! Synthesis only appends. What a design holds stays as it is under its number, and a net gains no
more than the pins of new devices. -/
namespace NetSynth

namespace Design

/-- The pin of a device that the later design has and the earlier one has not, on the net. -/
def NewPin (before after : Design) (id : NetId) (endpoint : Endpoint) : Prop :=
  before.devices.size ≤ endpoint.device.index ∧ ∃ device,
    after.device? endpoint.device = some device ∧
      ∃ connection ∈ device.connections, connection.pin = endpoint.pin ∧ connection.ref.net = id

/-- What synthesis may do to a design. Devices and functions stay as they are, nets keep everything
but note the pins of new devices after what they have noted, counters of scopes only move on, names
keep their texts and texts their names, and new nets are for intermediate values. -/
structure Appends (before after : Design) : Prop where
  devices : ∀ {id device}, before.device? id = some device → after.device? id = some device
  nets : ∀ {id net}, before.net? id = some net → ∃ added : Array Endpoint,
    after.net? id = some { net with endpoints := net.endpoints ++ added } ∧
      ∀ endpoint ∈ added, before.NewPin after id endpoint
  newNets : ∀ {id net}, before.net? id = none → after.net? id = some net →
    net.origin = .implicit ∧ net.isLocal = true
  scopes : ∀ {id scope}, before.scope? id = some scope → ∃ counter, scope.nextLocal ≤ counter ∧
    after.scope? id = some { scope with nextLocal := counter }
  noScopes : ∀ {id}, before.scope? id = none → after.scope? id = none
  functions : after.functions = before.functions
  texts : ∀ {name text}, before.names.text? name = some text → after.names.text? name = some text
  names : ∀ {text name}, before.names.find? text = some name → after.names.find? text = some name

/-- Growth in which every pin that a net gains is noted by its device. -/
structure Notes (before after : Design) : Prop extends before.Grows after where
  pins : ∀ {id net}, before.net? id = some net → ∃ added : Array Endpoint,
    after.net? id = some { net with endpoints := net.endpoints ++ added } ∧
      ∀ endpoint ∈ added, before.NewPin after id endpoint

variable {before mid after : Design}

theorem Notes.appends (noted : before.Notes after) : before.Appends after where
  devices := noted.toGrows.device
  nets := noted.pins
  newNets := by
    intro id net absent known
    obtain ⟨implicit, hidden, _⟩ := noted.newNets absent known
    exact ⟨implicit, hidden⟩
  scopes := noted.scopes
  noScopes := noted.noScopes
  functions := noted.functions
  texts := NameTable.Extends.text? noted.names
  names := NameTable.Extends.find? noted.names

theorem Notes.trans (first : before.Notes mid) (second : mid.Notes after) : before.Notes after where
  toGrows := first.toGrows.trans second.toGrows
  pins := by
    intro id net known
    obtain ⟨added, found, new⟩ := first.pins known
    obtain ⟨more, foundLater, newest⟩ := second.pins found
    refine ⟨added ++ more, by simpa only [Array.append_assoc] using foundLater, ?_⟩
    intro endpoint member
    rcases Array.mem_append.mp member with member | member
    · obtain ⟨newer, device, stored, connected⟩ := new endpoint member
      exact ⟨newer, device, second.toGrows.device stored, connected⟩
    · obtain ⟨newer, stored⟩ := newest endpoint member
      exact ⟨Nat.le_trans first.toGrows.device_count newer, stored⟩

theorem Grows.notes (grown : before.Grows after) (nets : after.nets = before.nets) :
    before.Notes after where
  toGrows := grown
  pins := by
    intro id net known
    refine ⟨#[], ?_, by simp⟩
    rw [Array.append_empty, net?, nets]
    exact known

theorem notes_refl (design : Design) : design.Notes design := (Grows.refl design).notes rfl

theorem notes_nameLocal (design : Design) (scope : ScopeId) (counter : Nat) :
    design.Notes (design.nameLocal scope counter).2 :=
  (design.grows_nameLocal scope counter).notes rfl

theorem notes_pushNet (design : Design) (scope : ScopeId) (name : Name) (type : ValueType)
    (span : Span) : design.Notes (design.pushNet scope name .implicit type true span).2 where
  toGrows := design.grows_pushNet scope name type span
  pins := by
    intro id net known
    have inside := design.net?_lt known
    refine ⟨#[], ?_, by simp⟩
    rw [Array.append_empty, net?_pushNet, if_neg (by omega), known]

theorem notes_pushDevice (design : Design) (scope : ScopeId) (name : Name) (kind : DeviceKind)
    (connections : List Connection) (span : Span) :
    design.Notes (design.pushDevice scope name kind connections span).2 where
  toGrows := design.grows_pushDevice scope name kind connections span
  pins := by
    intro id net known
    refine ⟨_, by rw [net?_pushDevice, known, Option.map_some], fun endpoint member => ?_⟩
    obtain ⟨connection, listed, rfl⟩ := List.mem_map.mp (List.mem_toArray.mp member)
    obtain ⟨connected, onNet⟩ := List.mem_filter.mp listed
    refine ⟨Nat.le_refl _, ⟨⟨design.devices.size⟩, name, scope, kind, kind.connect connections, span⟩,
      ?_, connection, by simpa using connected, rfl, by simpa using onNet⟩
    simp [pushDevice, device?]

def noting (start : Design) : Discipline where
  holds := fun _ => start.Notes
  stopped := start.Notes
  usable := fun _ _ => True
  stop := id
  report := fun diagnostic noted => noted.trans ((grows_report _ diagnostic).notes rfl)
  usable_grows := fun _ _ => trivial
  usable_word := fun _ _ _ _ => trivial
  localName := fun noted _ => noted.trans (notes_nameLocal _ _ _)
  localNet := fun span noted _ _ =>
    noted.trans ((notes_nameLocal _ _ _).trans (notes_pushNet _ _ _ _ span))
  device := fun span noted _ _ _ _ =>
    ⟨noted.trans ((notes_nameLocal _ _ _).trans (notes_pushDevice _ _ _ _ _ span)), trivial⟩

theorem synthesize_notes (settings : SynthesisSettings) (expr : Expr) (design : Design) :
    design.Notes ((synthesize settings expr).runOn design).2 := by
  obtain ⟨_, noted | ⟨_, noted⟩⟩ :=
    design.noting.synthesize settings expr (fun _ _ => trivial) (notes_refl design)
  · exact noted
  · exact noted

theorem synthesized_notes (calls : List (SynthesisSettings × Expr)) (design : Design) :
    design.Notes (design.synthesized calls).2 := by
  induction calls generalizing design with
  | nil => exact notes_refl design
  | cons call rest ih =>
    obtain ⟨settings, expr⟩ := call
    exact (synthesize_notes settings expr design).trans (ih _)

end Design

/-- Whatever a request comes to, it only appends to the design, and so does any run of requests.
What was handed out before them stays valid. -/
theorem synthesis_only_appends (design : Design) :
    (∀ settings expr, design.Appends ((synthesize settings expr).runOn design).2) ∧
    ∀ calls, design.Appends (design.synthesized calls).2 :=
  ⟨fun settings expr => (design.synthesize_notes settings expr).appends,
    fun calls => (design.synthesized_notes calls).appends⟩

end NetSynth
