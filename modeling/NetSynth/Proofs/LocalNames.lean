import NetSynth.Proofs.Commands
import NetSynth.Proofs.Interning
import NetSynth.Proofs.TextRows

/-! The names that the counter of a scope hands out. Nets and devices of a scope take them in turn,
so that no two nets and no two devices get the same one. -/
namespace NetSynth

def localText (counter : Nat) : String := s!"_s{counter}"

theorem localText_injective {counter counter' : Nat} (same : localText counter = localText counter') :
    counter = counter' :=
  repr_injective ((String.append_right_inj "_s").mp same)

namespace Design

/-- The name was handed out by the counter of the scope, which has moved on since. -/
def HandedOut (design : Design) (scope : ScopeId) (name : Name) (counter : Nat) : Prop :=
  (∃ found, design.scope? scope = some found ∧ counter < found.nextLocal) ∧
    design.names.text? name = some (localText counter)

/-- Every net has a name with a text, and intermediate nets and devices have theirs from the counter
of their scope. -/
structure LocalNames (design : Design) : Prop where
  distinct : design.names.Distinct
  named : ∀ {id net}, design.net? id = some net → ∃ text, design.names.text? net.name = some text
  nets : ∀ {id net}, design.net? id = some net → net.origin = .implicit →
    ∃ counter, design.HandedOut net.scope net.name counter
  devices : ∀ {id device}, design.device? id = some device →
    ∃ counter, design.HandedOut device.scope device.name counter
  netsApart : ∀ {id id' net net'}, design.net? id = some net → design.net? id' = some net' →
    net.origin = .implicit → net'.origin = .implicit → net.scope = net'.scope →
    net.name = net'.name → id = id'
  devicesApart : ∀ {id id' device device'}, design.device? id = some device →
    design.device? id' = some device' → device.scope = device'.scope →
    device.name = device'.name → id = id'

variable {design before after : Design} {scope : ScopeId} {name : Name} {counter : Nat}

theorem HandedOut.later (handed : before.HandedOut scope name counter)
    (texts : before.names.Extends after.names)
    (scopes : ∀ {id scope}, before.scope? id = some scope → ∃ found, after.scope? id = some found ∧
      scope.nextLocal ≤ found.nextLocal) : after.HandedOut scope name counter := by
  obtain ⟨⟨found, known, lt⟩, text⟩ := handed
  obtain ⟨found', known', le⟩ := scopes known
  exact ⟨⟨found', known', Nat.lt_of_lt_of_le lt le⟩, texts.text? text⟩

theorem HandedOut.unique {counter' : Nat} (handed : design.HandedOut scope name counter)
    (handed' : design.HandedOut scope name counter') : counter = counter' :=
  localText_injective (Option.some.inj (handed.2.symm.trans handed'.2))

theorem HandedOut.grows (handed : before.HandedOut scope name counter) (grown : before.Grows after) :
    after.HandedOut scope name counter :=
  handed.later grown.names fun stored =>
    have ⟨_, le, later⟩ := grown.scopes stored
    ⟨_, later, le⟩

section Taking

variable {found : Scope} (known : design.scope? scope = some found) (names : design.LocalNames)
include known

theorem handedOut_nameLocal : (design.nameLocal scope found.nextLocal).2.HandedOut scope
    (design.nameLocal scope found.nextLocal).1 found.nextLocal := by
  refine ⟨⟨{ found with nextLocal := found.nextLocal + 1 }, ?_, Nat.lt_succ_self _⟩,
    NameTable.text?_intern _ _⟩
  rw [scope?_nameLocal, known, Option.map_some, if_pos rfl]

/-- What was handed out before was handed out for an earlier place of the counter. -/
theorem HandedOut.ne_nameLocal (handed : design.HandedOut scope name counter) :
    name ≠ (design.nameLocal scope found.nextLocal).1 := by
  intro same
  have later := handed.grows (design.grows_nameLocal scope found.nextLocal)
  have taken := handedOut_nameLocal known
  rw [← same] at taken
  obtain ⟨⟨found', stored, lt⟩, _⟩ := handed
  obtain rfl := Option.some.inj (known.symm.trans stored)
  exact Nat.ne_of_lt lt (later.unique taken)

include names

omit known in
theorem LocalNames.nameLocal : (design.nameLocal scope found.nextLocal).2.LocalNames where
  distinct := NameTable.intern_distinct names.distinct _
  named := fun stored => by
    obtain ⟨text, texts⟩ := names.named stored
    exact ⟨text, NameTable.Extends.text? (design.grows_nameLocal _ _).names texts⟩
  nets := fun stored implicit => by
    obtain ⟨counter, handed⟩ := names.nets stored implicit
    exact ⟨counter, handed.grows (design.grows_nameLocal _ _)⟩
  devices := fun stored => by
    obtain ⟨counter, handed⟩ := names.devices stored
    exact ⟨counter, handed.grows (design.grows_nameLocal _ _)⟩
  netsApart := fun stored stored' => names.netsApart stored stored'
  devicesApart := fun stored stored' => names.devicesApart stored stored'

theorem LocalNames.localNet (type : ValueType) (span : Span) :
    let named := design.nameLocal scope found.nextLocal
    (named.2.pushNet scope named.1 .implicit type true span).2.LocalNames := by
  intro named
  have kept : named.2.LocalNames := names.nameLocal
  have taken : named.2.HandedOut scope named.1 found.nextLocal := handedOut_nameLocal known
  -- A net is the new one, or it was there before the name was taken.
  have origin : ∀ {id net}, (named.2.pushNet scope named.1 .implicit type true span).2.net? id = some net →
      (id = ⟨design.nets.size⟩ ∧ net.scope = scope ∧ net.name = named.1) ∨
        design.net? id = some net := by
    intro id net stored
    rw [net?_pushNet] at stored
    split at stored
    · rename_i last
      cases stored
      exact .inl ⟨congrArg NetId.mk last, rfl, rfl⟩
    · exact .inr stored
  have apart : ∀ {id net}, design.net? id = some net → net.origin = .implicit → net.scope = scope →
      net.name ≠ named.1 := by
    rintro id net stored implicit rfl
    obtain ⟨counter, handed⟩ := names.nets stored implicit
    exact handed.ne_nameLocal known
  refine ⟨kept.distinct, ?_, ?_, kept.devices, ?_, kept.devicesApart⟩
  · intro id net stored
    rcases origin stored with ⟨_, _, same⟩ | old
    · exact ⟨_, same ▸ taken.2⟩
    · exact kept.named old
  · intro id net stored implicit
    rcases origin stored with ⟨_, rfl, same⟩ | old
    · exact ⟨_, same ▸ taken⟩
    · exact kept.nets old implicit
  · intro id id' net net' stored stored' implicit implicit' sameScope sameName
    rcases origin stored with ⟨last, inScope, same⟩ | old <;>
      rcases origin stored' with ⟨last', inScope', same'⟩ | old'
    · exact last.trans last'.symm
    · exact absurd (sameName.symm.trans same) (apart old' implicit' (sameScope.symm.trans inScope))
    · exact absurd (sameName.trans same') (apart old implicit (sameScope.trans inScope'))
    · exact names.netsApart old old' implicit implicit' sameScope sameName

theorem LocalNames.localDevice (kind : DeviceKind) (connections : List Connection) (span : Span) :
    let named := design.nameLocal scope found.nextLocal
    (named.2.pushDevice scope named.1 kind connections span).2.LocalNames := by
  intro named
  have kept : named.2.LocalNames := names.nameLocal
  have taken : named.2.HandedOut scope named.1 found.nextLocal := handedOut_nameLocal known
  -- The nets note the pins of the device and stay as they are otherwise.
  have netOrigin : ∀ {id net},
      (named.2.pushDevice scope named.1 kind connections span).2.net? id = some net →
        ∃ old, design.net? id = some old ∧ net.origin = old.origin ∧ net.scope = old.scope ∧
          net.name = old.name := by
    intro id net stored
    rw [net?_pushDevice, Option.map_eq_some_iff] at stored
    obtain ⟨old, found, rfl⟩ := stored
    exact ⟨old, found, rfl, rfl, rfl⟩
  have origin : ∀ {id device},
      (named.2.pushDevice scope named.1 kind connections span).2.device? id = some device →
        (id = ⟨design.devices.size⟩ ∧ device.scope = scope ∧ device.name = named.1) ∨
          design.device? id = some device := by
    intro id device stored
    rw [device?_pushDevice] at stored
    split at stored
    · rename_i last
      cases stored
      exact .inl ⟨congrArg DeviceId.mk last, rfl, rfl⟩
    · exact .inr stored
  have apart : ∀ {id device}, design.device? id = some device → device.scope = scope →
      device.name ≠ named.1 := by
    rintro id device stored rfl
    obtain ⟨counter, handed⟩ := names.devices stored
    exact handed.ne_nameLocal known
  refine ⟨kept.distinct, ?_, ?_, ?_, ?_, ?_⟩
  · intro id net stored
    obtain ⟨old, found, _, _, same⟩ := netOrigin stored
    exact same ▸ kept.named found
  · intro id net stored implicit
    obtain ⟨old, found, sameOrigin, sameScope, sameName⟩ := netOrigin stored
    exact sameScope ▸ sameName ▸ kept.nets found (sameOrigin.symm.trans implicit)
  · intro id device stored
    rcases origin stored with ⟨_, rfl, same⟩ | old
    · exact ⟨_, same ▸ taken⟩
    · exact kept.devices old
  · intro id id' net net' stored stored' implicit implicit' sameScope sameName
    obtain ⟨old, found, origin, scope, name⟩ := netOrigin stored
    obtain ⟨old', found', origin', scope', name'⟩ := netOrigin stored'
    exact names.netsApart found found' (origin.symm.trans implicit) (origin'.symm.trans implicit')
      (scope.symm.trans (sameScope.trans scope')) (name.symm.trans (sameName.trans name'))
  · intro id id' device device' stored stored' sameScope sameName
    rcases origin stored with ⟨last, inScope, same⟩ | old <;>
      rcases origin stored' with ⟨last', inScope', same'⟩ | old'
    · exact last.trans last'.symm
    · exact absurd (sameName.symm.trans same) (apart old' (sameScope.symm.trans inScope))
    · exact absurd (sameName.trans same') (apart old (sameScope.trans inScope'))
    · exact names.devicesApart old old' sameScope sameName

end Taking

/-- The discipline of taking local names from the counters. -/
def naming : Discipline where
  holds := fun _ => LocalNames
  stopped := LocalNames
  usable := fun _ _ => True
  stop := id
  report := fun _ names => ⟨names.distinct, names.named, names.nets, names.devices,
    names.netsApart, names.devicesApart⟩
  usable_grows := fun _ _ => trivial
  usable_word := fun _ _ _ _ => trivial
  localName := fun names _ => names.nameLocal
  localNet := fun span names known _ => names.localNet known _ span
  device := fun span names known _ _ _ => ⟨names.localDevice known _ _ span, trivial⟩

end Design

end NetSynth
