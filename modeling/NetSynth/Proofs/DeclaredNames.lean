import NetSynth.Proofs.LocalNames

/-! The names that the nets of the user have. They come from the requests alone, in their order, and
synthesis adds none. -/
namespace NetSynth

/-- The name that a word has in a memory with the given name. -/
def wordText (text : String) (index : Int) : String := s!"{text}[{index}]"

theorem toList_wordText (text : String) (index : Int) :
    (wordText text index).toList = text.toList ++ '[' :: (index.repr.toList ++ [']']) := by
  rw [show wordText text index = text ++ "[" ++ index.repr ++ "]" from rfl]
  simp

theorem integer_repr_injective {index index' : Int} (same : index.repr = index'.repr) :
    index = index' := by
  have unsigned : ∀ {number : Nat} {text : String}, number.repr ≠ "-" ++ text := by
    intro number text same
    have digit : '-' ∈ number.repr.toList := by simp [same]
    exact absurd (isDigit_of_mem_repr digit) (by decide)
  cases index with
  | ofNat number =>
    cases index' with
    | ofNat number' => exact congrArg Int.ofNat (repr_injective same)
    | negSucc number' => exact absurd same unsigned
  | negSucc number =>
    cases index' with
    | ofNat number' => exact absurd same.symm unsigned
    | negSucc number' =>
      have digits : (number + 1).repr = (number' + 1).repr := (String.append_right_inj "-").mp same
      exact congrArg Int.negSucc (Nat.succ.inj (repr_injective digits))

theorem bracket_notMem_repr (index : Int) : '[' ∉ index.repr.toList := by
  intro member
  cases index with
  | ofNat number => exact absurd (@isDigit_of_mem_repr number _ member) (by decide)
  | negSucc number =>
    rw [show (Int.negSucc number).repr = "-" ++ (number + 1).repr from rfl, String.toList_append,
      List.mem_append] at member
    rcases member with minus | digit
    · exact absurd minus (by decide)
    · exact absurd (isDigit_of_mem_repr digit) (by decide)

theorem takeWhile_wordText (text : String) (index : Int) :
    (wordText text index).toList.reverse.takeWhile (· != '[') =
      ']' :: index.repr.toList.reverse := by
  have turned : (wordText text index).toList.reverse =
      (']' :: index.repr.toList.reverse) ++ '[' :: text.toList.reverse := by
    simp [toList_wordText]
  have inside : ∀ char ∈ ']' :: index.repr.toList.reverse, (char != '[') = true := by
    intro char member
    rcases List.mem_cons.mp member with rfl | digit
    · decide
    · refine bne_iff_ne.mpr fun bracket => bracket_notMem_repr index ?_
      exact bracket ▸ List.mem_reverse.mp digit
  rw [turned, List.takeWhile_append_of_pos inside, List.takeWhile_cons_of_neg (by decide),
    List.append_nil]

theorem wordText_injective {text text' : String} {index index' : Int}
    (same : wordText text index = wordText text' index') : text = text' ∧ index = index' := by
  have indexes := takeWhile_wordText text index
  rw [same, takeWhile_wordText, List.cons.injEq, List.reverse_inj, String.toList_inj] at indexes
  obtain rfl := integer_repr_injective indexes.2.symm
  rw [← String.toList_inj, toList_wordText, toList_wordText, List.append_cancel_right_eq] at same
  exact ⟨String.toList_inj.mp same, rfl⟩

theorem localText_ne_wordText (counter : Nat) (text : String) (index : Int) :
    localText counter ≠ wordText text index := by
  intro same
  have bracket : ']' ∈ (localText counter).toList := by simp [same, toList_wordText]
  rw [show localText counter = "_s" ++ counter.repr from rfl, String.toList_append,
    List.mem_append] at bracket
  rcases bracket with start | digit
  · exact absurd start (by decide)
  · exact absurd (isDigit_of_mem_repr digit) (by decide)

namespace Design

/-- Where a net is looked up by name. -/
def placeOf (design : Design) (net : Net) : ScopeId × String :=
  (net.scope, (design.names.text? net.name).getD "")

/-- The places of the nets of one origin, in the order of their creation. -/
def placesOf (design : Design) (origin : NetOrigin) : List (ScopeId × String) :=
  (design.nets.toList.filter (·.origin == origin)).map design.placeOf

variable {design before mid after : Design} {scope : ScopeId} {name : Name} {text : String}

/-- Names keep their texts, and a net that was there keeps its name. -/
structure KeepsNames (before after : Design) : Prop where
  names : before.names.Extends after.names
  nets : ∀ {id net}, before.net? id = some net → ∃ net', after.net? id = some net' ∧
    net'.origin = net.origin ∧ net'.scope = net.scope ∧ net'.name = net.name

theorem Grows.keepsNames (grown : before.Grows after) : before.KeepsNames after where
  names := grown.names
  nets := fun known =>
    have ⟨_, later, _⟩ := grown.nets known
    ⟨_, later, rfl, rfl, rfl⟩

theorem placeOf_of {net : Net} (known : design.names.text? net.name = some text) :
    design.placeOf net = (net.scope, text) := by
  rw [placeOf, known, Option.getD_some]

theorem KeepsNames.map_nets (kept : before.KeepsNames after) (names : before.LocalNames) :
    after.nets.toList.map (fun net => (net.origin, after.placeOf net)) =
      before.nets.toList.map (fun net => (net.origin, before.placeOf net)) ++
        (after.nets.toList.drop before.nets.size).map fun net => (net.origin, after.placeOf net) := by
  have more : before.nets.size ≤ after.nets.size := net_count_le fun id net known =>
    have ⟨net', later, _⟩ := kept.nets known
    ⟨net', later⟩
  rw [List.map_drop]
  refine (List.take_append_drop before.nets.size _).symm.trans
    (congrArg (· ++ _) (List.ext_getElem (by simp [Nat.min_eq_left more]) fun place inside inside' => ?_))
  have old : place < before.nets.size := by simpa using inside'
  have known : before.net? ⟨place⟩ = some before.nets[place] := Array.getElem?_eq_getElem old
  obtain ⟨net', later, origin, scope, name⟩ := kept.nets known
  obtain ⟨text, texts⟩ := names.named known
  obtain ⟨_, rfl⟩ := Array.getElem?_eq_some_iff.mp later
  simp only [List.getElem_take, List.getElem_map, Array.getElem_toList, origin, scope,
    placeOf_of texts, placeOf_of (name ▸ kept.names.text? texts)]

theorem placesOf_eq (design : Design) (origin : NetOrigin) : design.placesOf origin =
    ((design.nets.toList.map fun net => (net.origin, design.placeOf net)).filter
      (·.1 == origin)).map (·.2) := by
  rw [List.filter_map, List.map_map]
  rfl

theorem KeepsNames.placesOf (kept : before.KeepsNames after) (names : before.LocalNames)
    (origin : NetOrigin) : after.placesOf origin = before.placesOf origin ++
      ((after.nets.toList.drop before.nets.size).filter (·.origin == origin)).map after.placeOf := by
  rw [placesOf_eq, kept.map_nets names, List.filter_append, List.map_append, ← placesOf_eq,
    List.filter_map, List.map_map]
  rfl

/-- Nets of the user with the given names are new in the later design, and no others. -/
structure Declares (before after : Design) (places : List (ScopeId × String)) : Prop where
  names : after.LocalNames
  places : after.placesOf .declared = before.placesOf .declared ++ places

variable {places places' : List (ScopeId × String)}

theorem LocalNames.declares_none (names : design.LocalNames) : design.Declares design [] :=
  ⟨names, (List.append_nil _).symm⟩

theorem Declares.trans (first : before.Declares mid places) (second : mid.Declares after places') :
    before.Declares after (places ++ places') :=
  ⟨second.names, by rw [second.places, first.places, List.append_assoc]⟩

theorem Grows.declares (grown : before.Grows after) (names : before.LocalNames)
    (later : after.LocalNames) : before.Declares after [] := by
  refine ⟨later, (grown.keepsNames.placesOf names .declared).trans (congrArg _ ?_)⟩
  refine List.map_eq_nil_iff.mpr (List.filter_eq_nil_iff.mpr fun net member => ?_)
  obtain ⟨place, stored⟩ := List.mem_iff_getElem?.mp member
  rw [List.getElem?_drop, Array.getElem?_toList] at stored
  have absent : before.net? ⟨before.nets.size + place⟩ = none :=
    Array.getElem?_eq_none (Nat.le_add_right _ _)
  simp [(grown.newNets absent stored).1]

theorem LocalNames.declares (names : before.LocalNames) (kept : before.KeepsNames after)
    (distinct : after.names.Distinct) (devices : after.devices = before.devices)
    (scopes : ∀ {id scope}, before.scope? id = some scope → ∃ found, after.scope? id = some found ∧
      scope.nextLocal ≤ found.nextLocal)
    (nets : ∀ {id net}, after.net? id = some net → (∃ old, before.net? id = some old ∧
      net.origin = old.origin ∧ net.scope = old.scope ∧ net.name = old.name) ∨
        net.origin = .declared ∧ ∃ text, after.names.text? net.name = some text)
    (new : (after.nets.toList.drop before.nets.size).map after.placeOf = places)
    (declared : ∀ net ∈ after.nets.toList.drop before.nets.size, net.origin = .declared) :
    before.Declares after places := by
  have intermediate : ∀ {id net}, after.net? id = some net → net.origin = .implicit →
      ∃ old, before.net? id = some old ∧ old.origin = .implicit ∧ net.scope = old.scope ∧
        net.name = old.name := by
    intro id net stored implicit
    rcases nets stored with ⟨old, found, origin, same⟩ | ⟨origin, _⟩
    · exact ⟨old, found, origin.symm.trans implicit, same⟩
    · simp [origin] at implicit
  refine ⟨⟨distinct, ?_, ?_, ?_, ?_, ?_⟩, ?_⟩
  · intro id net stored
    rcases nets stored with ⟨old, found, _, _, same⟩ | ⟨_, known⟩
    · obtain ⟨text, texts⟩ := names.named found
      exact ⟨text, same ▸ kept.names.text? texts⟩
    · exact known
  · intro id net stored implicit
    obtain ⟨old, found, origin, scope, name⟩ := intermediate stored implicit
    obtain ⟨counter, handed⟩ := names.nets found origin
    exact ⟨counter, scope ▸ name ▸ handed.later kept.names scopes⟩
  · intro id device stored
    rw [device?, devices] at stored
    obtain ⟨counter, handed⟩ := names.devices stored
    exact ⟨counter, handed.later kept.names scopes⟩
  · intro id id' net net' stored stored' implicit implicit' sameScope sameName
    obtain ⟨old, found, origin, scope, name⟩ := intermediate stored implicit
    obtain ⟨old', found', origin', scope', name'⟩ := intermediate stored' implicit'
    exact names.netsApart found found' origin origin' (scope.symm.trans (sameScope.trans scope'))
      (name.symm.trans (sameName.trans name'))
  · intro id id' device device' stored stored'
    rw [device?, devices] at stored stored'
    exact names.devicesApart stored stored'
  · rw [kept.placesOf names, List.filter_eq_self.mpr fun net member => by simp [declared net member],
      new]

theorem LocalNames.declares_of_nets (names : before.LocalNames) (nets : after.nets = before.nets)
    (devices : after.devices = before.devices) (texts : before.names.Extends after.names)
    (distinct : after.names.Distinct)
    (scopes : ∀ {id scope}, before.scope? id = some scope → ∃ found, after.scope? id = some found ∧
      scope.nextLocal ≤ found.nextLocal) : before.Declares after [] := by
  have same : ∀ id, after.net? id = before.net? id := fun id => by rw [net?, net?, nets]
  have none : after.nets.toList.drop before.nets.size = [] := by simp [nets]
  refine names.declares ⟨texts, fun known => ⟨_, (same _).trans known, rfl, rfl, rfl⟩⟩ distinct
    devices scopes (fun known => .inl ⟨_, (same _).symm.trans known, rfl, rfl, rfl⟩) ?_ ?_
  · rw [none, List.map_nil]
  · simp [none]

theorem LocalNames.intern (names : design.LocalNames) (text : String) :
    design.Declares (design.intern text).2 [] :=
  names.declares_of_nets rfl rfl (NameTable.intern_extends _ _)
    (NameTable.intern_distinct names.distinct _) fun known => ⟨_, known, Nat.le_refl _⟩

theorem LocalNames.pushScope (names : design.LocalNames) (name : Name) (parent : ScopeId) :
    design.Declares (design.pushScope name parent).2 [] := by
  refine names.declares_of_nets rfl rfl (List.prefix_refl _) names.distinct fun {id scope} known =>
    ⟨scope, ?_, Nat.le_refl _⟩
  have inside := (Array.getElem?_eq_some_iff.mp known).1
  change (design.scopes.push _)[id.index]? = some scope
  rw [Array.getElem?_push, if_neg (by omega)]
  exact known

theorem LocalNames.pushNet (names : design.LocalNames) (scope : ScopeId) (type : ValueType)
    (span : Span) (known : design.names.text? name = some text) :
    design.Declares (design.pushNet scope name .declared type false span).2 [(scope, text)] := by
  have old : ∀ {id net}, design.net? id = some net →
      (design.pushNet scope name .declared type false span).2.net? id = some net := by
    intro id net stored
    have inside := design.net?_lt stored
    rw [net?_pushNet, if_neg (by omega), stored]
  refine names.declares ⟨List.prefix_refl _, fun stored => ⟨_, old stored, rfl, rfl, rfl⟩⟩
    names.distinct rfl (fun stored => ⟨_, stored, Nat.le_refl _⟩) ?_ ?_ ?_
  · intro id net stored
    rw [net?_pushNet] at stored
    split at stored
    · cases stored
      exact .inr ⟨rfl, text, known⟩
    · exact .inl ⟨net, stored, rfl, rfl, rfl⟩
  · simp [Design.pushNet, placeOf, known]
  · simp [Design.pushNet]

theorem LocalNames.nameMemory (names : design.LocalNames) (memory : NetId) (words : MemoryWords) :
    design.Declares (design.nameMemory memory words) [] := by
  have none : (design.nameMemory memory words).nets.toList.drop design.nets.size = [] := by
    simp [Design.nameMemory]
  refine names.declares ⟨List.prefix_refl _, fun stored => ?_⟩ names.distinct rfl
    (fun stored => ⟨_, stored, Nat.le_refl _⟩) ?_ ?_ ?_
  · rw [net?_nameMemory, stored]
    refine ⟨_, rfl, ?_, ?_, ?_⟩ <;> split <;> rfl
  · intro id net stored
    rw [net?_nameMemory, Option.map_eq_some_iff] at stored
    obtain ⟨old, found, rfl⟩ := stored
    refine .inl ⟨old, found, ?_, ?_, ?_⟩ <;> split <;> rfl
  · rw [none, List.map_nil]
  · simp [none]

end Design

/-! ### Requests -/

namespace Command

/-- The names that a request is given for nets. A real net of another width than 1 is refused. -/
def namesPassed : Command → List (ScopeId × String)
  | addSignal scope text type _ =>
      if type.domain.isReal && type.width != 1 then [] else [(scope, text)]
  | addMemory scope text .. => [(scope, text)]
  | _ => []

/-- The names that a request makes up for the words of a memory. -/
def wordNames : Command → List (ScopeId × String)
  | addMemory scope text _ _ first last _ =>
      (MemoryWords.indexes first last).map fun index => (scope, wordText text index)
  | _ => []

end Command

namespace Build

open Design (LocalNames)

variable {design : Design} {α : Type} {places : List (ScopeId × String)}

/-- Whatever the run comes to, it has declared nets at the places. -/
def Declares (run : Build α) (design : Design) (places : List (ScopeId × String)) : Prop :=
  run.Ends design (fun _ after => design.Declares after places) fun after =>
    design.Declares after places

theorem Declares.after {run : Build α} (declares : run.Declares design places) :
    design.Declares (run.runOn design).2 places := Ends.after declares

theorem declares_discard {run : Build α} :
    Declares (discard run) design places ↔ run.Declares design places :=
  ends_discard run

/-- A run that always gets through. -/
theorem Ends.declares {run : Build α}
    (ends : run.Ends design (fun _ after => design.Declares after places) fun _ => False) :
    run.Declares design places :=
  ends.imp (fun _ _ declared => declared) fun _ none => none.elim

theorem ends_addSignal (names : design.LocalNames) (scope : ScopeId) (text : String)
    {type : ValueType} (span : Span) (narrow : (type.domain.isReal && type.width != 1) = false) :
    (addSignal scope text type span).Ends design (fun _ after => design.Declares after [(scope, text)])
      fun _ => False := by
  rw [addSignal, ends_bind]
  have named := names.intern text
  refine (ends_addNet _ _ _ _ _ _).mpr ?_
  rw [narrow, if_neg Bool.false_ne_true]
  exact named.trans (named.names.pushNet scope type span (NameTable.text?_intern _ _))

theorem addSignal_declares (names : design.LocalNames) (scope : ScopeId) (text : String)
    (type : ValueType) (span : Span) : (addSignal scope text type span).Declares design
      (if type.domain.isReal && type.width != 1 then [] else [(scope, text)]) := by
  split
  · rename_i wide
    rw [addSignal, Declares, ends_bind]
    refine (ends_addNet _ _ _ _ _ _).mpr ?_
    rw [if_pos wide]
    exact names.intern text
  · rename_i narrow
    exact (ends_addSignal names scope text span (eq_false_of_ne_true narrow)).declares

theorem ends_words (names : design.LocalNames) (scope : ScopeId) (nameOf : Int → String)
    {type : ValueType} (span : Span) (narrow : (type.domain.isReal && type.width != 1) = false)
    (indexes : List Int) :
    (indexes.mapM fun index => addSignal scope (nameOf index) type span).Ends design
      (fun _ after => design.Declares after (indexes.map fun index => (scope, nameOf index)))
      fun _ => False := by
  induction indexes generalizing design with
  | nil => exact names.declares_none
  | cons index rest ih =>
    rw [List.mapM_cons, ends_bind]
    apply (ends_addSignal names scope (nameOf index) span narrow).imp
    · intro id mid first
      rw [ends_bind]
      exact (ih first.names).imp (fun ids after more => first.trans more) fun _ none => none
    · exact fun _ none => none

theorem addMemory_declares (names : design.LocalNames) (scope : ScopeId) (text : String)
    (width : Nat) (signed : Bool) (first last : Int) (span : Span) :
    (addMemory scope text width signed first last span).Declares design
      ((MemoryWords.indexes first last).map (fun index => (scope, wordText text index)) ++
        [(scope, text)]) := by
  apply Ends.declares
  rw [addMemory, ends_bind]
  apply (ends_words names scope (wordText text) span rfl _).imp
  · intro words mid declared
    rw [ends_bind]
    apply (ends_addSignal declared.names scope text span rfl).imp
    · intro memory after more
      have named := more.names.nameMemory memory ⟨first, last, words.toArray⟩
      have all := (declared.trans more).trans named
      rw [List.append_nil] at all
      exact all
    · exact fun _ none => none
  · exact fun _ none => none

theorem addLocal_declares (names : design.LocalNames) (scope : ScopeId) (type : ValueType)
    (span : Span) : (addLocal scope type span).Declares design [] := by
  rw [Declares, ends_addLocal]
  cases known : design.scope? scope with
  | none => exact names.declares_none
  | some found =>
    dsimp only
    split
    · exact (design.grows_nameLocal _ _).declares names names.nameLocal
    · exact (design.grows_localNet _ _ _ _).declares names (names.localNet known _ _)

theorem addDevice_declares (names : design.LocalNames) (scope : ScopeId) (kind : DeviceKind)
    (connections : List Connection) (span : Span) :
    (addDevice scope kind connections span).Declares design [] := by
  rw [Declares, ends_addDevice]
  cases design.check kind connections with
  | error fault => exact names.declares_none
  | ok _ =>
    cases known : design.scope? scope with
    | none => exact names.declares_none
    | some found =>
      exact (design.grows_localDevice _ _ _ _ _).declares names (names.localDevice known _ _ _)

theorem declares_of_builds {run : Build α} {value : Design → α → Prop} (names : design.LocalNames)
    (builds : Design.naming.Builds design run value) : run.Declares design [] := by
  have kept : Design.naming.holds [] design := names
  apply (builds (.refl design) kept).imp
  · exact fun a after ⟨grown, later, _⟩ => grown.declares names later
  · exact fun after ⟨grown, later⟩ => grown.declares names later

end Build

open Design (LocalNames Declares)

theorem Command.run_declares (command : Command) {design : Design} (names : design.LocalNames) :
    command.run.Declares design (command.wordNames ++ command.namesPassed) := by
  have alone : ∀ {after : Design}, after.nets = design.nets → after.devices = design.devices →
      after.names = design.names → after.scopes = design.scopes → design.Declares after [] := by
    intro after nets devices texts scopes
    refine names.declares_of_nets nets devices (texts ▸ List.prefix_refl _) (texts ▸ names.distinct)
      fun known => ⟨_, ?_, Nat.le_refl _⟩
    rw [Design.scope?, scopes]
    exact known
  cases command with
  | intern text => exact Build.declares_discard.mpr (names.intern text)
  | report diagnostic => exact alone rfl rfl rfl rfl
  | takeReports => exact alone rfl rfl rfl rfl
  | addScope text parent =>
    have named := names.intern text
    exact Build.declares_discard.mpr (named.trans (named.names.pushScope _ parent))
  | addFunction scope result ports => exact Build.declares_discard.mpr (alone rfl rfl rfl rfl)
  | addSignal scope text type span =>
    exact Build.declares_discard.mpr (Build.addSignal_declares names scope text type span)
  | addMemory scope text width signed first last span =>
    exact Build.declares_discard.mpr
      (Build.addMemory_declares names scope text width signed first last span)
  | addLocal scope type span =>
    exact Build.declares_discard.mpr (Build.addLocal_declares names scope type span)
  | addDevice scope kind connections span =>
    exact Build.declares_discard.mpr (Build.addDevice_declares names scope kind connections span)
  | constant scope value signed span =>
    exact Build.declares_discard.mpr
      (Build.declares_of_builds names (Discipline.constant scope value signed span))
  | literal value span =>
    exact Build.declares_discard.mpr (Build.declares_of_builds names (Discipline.literal value span))
  | extend id width signed span =>
    exact Build.declares_discard.mpr
      (Build.declares_of_builds names (Discipline.extend width signed span trivial))
  | pad id width span =>
    exact Build.declares_discard.mpr (Build.declares_of_builds names (Discipline.pad width span trivial))
  | crop id width span =>
    exact Build.declares_discard.mpr
      (Build.declares_of_builds names (Discipline.crop width span trivial))
  | synthesize settings expr =>
    exact Build.declares_discard.mpr
      (Build.declares_of_builds names (Discipline.request settings expr fun _ _ => trivial))
  | synthesizeAll settings exprs =>
    exact Build.declares_discard.mpr
      (Build.declares_of_builds names
        (Conduct.Builds.synthesizeAll fun expr _ =>
          Discipline.request settings expr fun _ _ => trivial))

theorem Design.localNames_empty (rootName : String) : (empty rootName).LocalNames where
  distinct := NameTable.intern_distinct (show NameTable.Distinct {} from List.nodup_nil) rootName
  named := fun known => by simp [empty, net?] at known
  nets := fun known => by simp [empty, net?] at known
  devices := fun known => by simp [empty, device?] at known
  netsApart := fun known => by simp [empty, net?] at known
  devicesApart := fun known => by simp [empty, device?] at known

/-- The names of the user's nets are those of the requests, in their order. -/
theorem Design.reached_declares (rootName : String) (commands : List Command) :
    (empty rootName).Declares (reached rootName commands)
      (commands.flatMap fun command => command.wordNames ++ command.namesPassed) := by
  have fromAny : ∀ design : Design, design.LocalNames →
      design.Declares (commands.foldl Command.apply design) (commands.flatMap fun command => command.wordNames ++ command.namesPassed) := by
    induction commands with
    | nil => exact fun design names => names.declares_none
    | cons command rest ih =>
      intro design names
      have first := (command.run_declares names).after
      exact first.trans (ih _ first.names)
  exact fromAny _ (localNames_empty rootName)

end NetSynth
