import NetSynth.Proofs.Order
import NetSynth.Proofs.ValuedRuns

/-! What a run adds to a design, device by device, with the words that the new devices deliver. Of
the design nothing is asked: each device is evaluated as it is added, so that no order of all of
them is needed. -/
namespace NetSynth

namespace Design

variable {before mid after : Design} {words : Valuation} {kinds more : List DeviceKind}

theorem evaluate_self (design : Design) (words : Valuation) :
    design.evaluate design words = words := by
  rw [evaluate, evaluateBy, newDevices_self]
  rfl

theorem evaluate_trans (grown : before.Grows mid) (later : mid.Grows after) (words : Valuation) :
    before.evaluate after words = mid.evaluate after (before.evaluate mid words) := by
  rw [evaluate, evaluateBy, newDevices_append grown later, List.foldl_append]
  rfl

theorem Carries.isSome {design : Design} {id : NetId} {type : ValueType}
    (carries : design.Carries id type) : (design.net? id).isSome := by
  obtain ⟨net, known, _⟩ := carries.stored
  rw [known]
  rfl

/-- Devices of these kinds were added in this order. They leave the words on the nets that were
there before, and nothing was reported. -/
structure Adds (before after : Design) (kinds : List DeviceKind) : Prop where
  grows : before.Grows after
  kinds : (before.newDevices after).map (·.kind) = kinds
  keeps : ∀ words id, (before.net? id).isSome → before.evaluate after words id = words id
  log : after.log = before.log

namespace Adds

theorem refl (design : Design) : design.Adds design [] where
  grows := .refl design
  kinds := by
    rw [newDevices_self]
    rfl
  keeps := by
    intro words id _
    rw [evaluate_self]
  log := rfl

theorem trans (first : before.Adds mid kinds) (second : mid.Adds after more) :
    before.Adds after (kinds ++ more) where
  grows := first.grows.trans second.grows
  kinds := by
    rw [newDevices_append first.grows second.grows, List.map_append, first.kinds, second.kinds]
  keeps := by
    intro words id old
    obtain ⟨net, known⟩ := Option.isSome_iff_exists.mp old
    obtain ⟨net', known', _⟩ := first.grows.net known
    rw [evaluate_trans first.grows second.grows,
      second.keeps _ id (Option.isSome_iff_exists.mpr ⟨net', known'⟩), first.keeps words id old]
  log := second.log.trans first.log

theorem evaluate_nil (adds : before.Adds after []) (words : Valuation) :
    before.evaluate after words = words := by
  rw [evaluate, evaluateBy, List.map_eq_nil_iff.mp adds.kinds]
  rfl

theorem localNet (design : Design) (scope : ScopeId) (counter : Nat) (type : ValueType)
    (span : Span) : let named := design.nameLocal scope counter
    design.Adds (named.2.pushNet scope named.1 .implicit type true span).2 [] where
  grows := design.grows_localNet scope counter type span
  kinds := (Adds.refl design).kinds
  keeps := (Adds.refl design).keeps
  log := rfl

section Device

variable {kind : DeviceKind} {connections : List Connection} {out : NetId}
  (adds : before.Adds mid kinds) (drives : Drives out connections) (scope : ScopeId)
  (counter : Nat) (span : Span)
include adds drives

theorem evaluate_localDevice (words : Valuation) (id : NetId) :
    let named := mid.nameLocal scope counter
    before.evaluate (named.2.pushDevice scope named.1 kind connections span).2 words id =
      if id = out then
        (kind.compute? (pinWord (before.evaluate mid words) connections)).getD
          (before.evaluate mid words id)
      else before.evaluate mid words id := by
  intro named
  have grown := adds.grows.trans (mid.grows_nameLocal scope counter)
  rw [evaluate, evaluateBy, newDevices_pushDevice _ grown, List.foldl_append, List.foldl_cons,
    List.foldl_nil, Device.settleBy_apply (drives.connect _ _ _ _ _)]
  simp only [Device.connections_mk, DeviceKind.map_connect]
  rfl

theorem localDevice (fresh : before.net? out = none) :
    let named := mid.nameLocal scope counter
    before.Adds (named.2.pushDevice scope named.1 kind connections span).2 (kinds ++ [kind]) where
  grows := adds.grows.trans (mid.grows_localDevice scope counter kind connections span)
  kinds := by
    have grown := adds.grows.trans (mid.grows_nameLocal scope counter)
    rw [newDevices_pushDevice _ grown, List.map_append]
    exact congrArg (· ++ [kind]) adds.kinds
  keeps := by
    intro words id old
    have other : id ≠ out := by
      rintro rfl
      simp [fresh] at old
    rw [adds.evaluate_localDevice drives, if_neg other, adds.keeps words id old]
  log := adds.log

end Device
end Adds

/-- The last of the devices that were added drives a new net of the type. -/
structure Makes (before after : Design) (kinds : List DeviceKind) (out : NetId) (type : ValueType) :
    Prop extends Adds before after kinds where
  fresh : before.net? out = none
  carries : after.Carries out type
  driven : ∃ device, (before.newDevices after).getLast? = some device ∧
    Drives out device.connections

theorem Adds.makes {out : NetId} {type : ValueType} (first : before.Adds mid kinds)
    (second : mid.Makes after more out type) : before.Makes after (kinds ++ more) out type where
  toAdds := first.trans second.toAdds
  fresh := by
    cases known : before.net? out with
    | none => rfl
    | some net =>
      obtain ⟨net', known', _⟩ := first.grows.net known
      cases second.fresh.symm.trans known'
  carries := second.carries
  driven := by
    obtain ⟨device, last, drives⟩ := second.driven
    refine ⟨device, ?_, drives⟩
    rw [newDevices_append first.grows second.grows, List.getLast?_append, last, Option.some_or]

end Design

namespace Build

open Design

variable {design mid : Design} {scope : ScopeId} {type : ValueType} {out : NetId}
  {kinds : List DeviceKind}

theorem ends_addLocal_adds (span : Span) (place : (design.scope? scope).isSome)
    (scalar : type.domain = .real → type.width = 1) :
    (addLocal scope type span).Ends design (fun out after =>
      design.Adds after [] ∧ design.net? out = none ∧ after.Carries out type) fun _ => False := by
  obtain ⟨found, known⟩ := Option.isSome_iff_exists.mp place
  have adds := Adds.localNet design scope found.nextLocal type span
  rw [ends_addLocal, known]
  dsimp only
  rw [if_neg (ValueType.accepted scalar)]
  constructor
  · exact adds
  constructor
  · simp [net?]
  · exact ⟨⟨_, (net?_pushNet ..).trans (if_pos rfl), rfl, adds.grows.scope place⟩, scalar⟩

theorem ends_addDevice_makes {kind : DeviceKind} {connections : List Connection} (span : Span)
    (adds : design.Adds mid kinds) (place : (design.scope? scope).isSome)
    (keeps : mid.Keeps kind connections) (drives : Drives out connections)
    (fresh : design.net? out = none) (carries : mid.Carries out type) :
    (addDevice scope kind connections span).Ends mid
      (fun _ after => design.Makes after (kinds ++ [kind]) out type ∧
        ∀ words word, kind.compute? (pinWord (design.evaluate mid words) connections) = some word →
          design.evaluate after words out = word) fun _ => False := by
  obtain ⟨found, known⟩ := Option.isSome_iff_exists.mp (adds.grows.scope place)
  rw [ends_addDevice, check_eq_ok_iff.mpr keeps, known]
  constructor
  · refine ⟨adds.localDevice drives _ _ _ fresh, fresh, carries.grows ?_, ?_⟩
    · exact mid.grows_localDevice scope found.nextLocal kind connections span
    · rw [newDevices_pushDevice _ (adds.grows.trans (mid.grows_nameLocal scope found.nextLocal))]
      exact ⟨_, List.getLast?_concat, drives.connect _ _ _ _ _⟩
  · intro words word computes
    rw [adds.evaluate_localDevice drives, if_pos rfl, computes, Option.getD_some]

/-- The steps of `drive`, where none of them stops: what finds out the device may itself add
devices, as long as it comes to connections that keep the contract. -/
theorem ends_drive {device : NetId → Build (DeviceKind × List Connection)} (span : Span)
    (place : (design.scope? scope).isSome) (scalar : type.domain = .real → type.width = 1)
    (ready : NetId → Design → List DeviceKind → DeviceKind × List Connection → Prop)
    (given : ∀ opened out, design.Adds opened [] → opened.Carries out type →
      (device out).Ends opened (fun result mid => ∃ kinds, opened.Adds mid kinds ∧
        mid.Keeps result.1 result.2 ∧ Drives out result.2 ∧ ready out mid kinds result)
        fun _ => False) :
    (drive scope type span device).Ends design
      (fun out after => ∃ mid kinds result, ready out mid kinds result ∧
        design.Makes after (kinds ++ [result.1]) out type ∧
        ∀ words word, result.1.compute? (pinWord (design.evaluate mid words) result.2) = some word →
          design.evaluate after words out = word) fun _ => False := by
  simp only [drive, ends_bind, ends_pure]
  apply (ends_addLocal_adds span place scalar).mono
  rintro out opened ⟨opens, fresh, carries⟩
  apply (given opened out opens carries).mono
  rintro ⟨kind, connections⟩ mid ⟨kinds, adds, keeps, drives, isReady⟩
  have all := opens.trans adds
  apply (ends_addDevice_makes span all place keeps drives fresh (carries.grows adds.grows)).mono
  rintro _ after ⟨makes, delivers⟩
  exact ⟨mid, kinds, ⟨kind, connections⟩, isReady, makes, delivers⟩

/-- The common case of `drive`, where the device is known beforehand. -/
theorem ends_drive_known {kind : DeviceKind} {connections : NetId → List Connection} (span : Span)
    (place : (design.scope? scope).isSome) (scalar : type.domain = .real → type.width = 1)
    (keeps : ∀ opened out, design.Grows opened → opened.Carries out type →
      opened.Keeps kind (connections out))
    (drives : ∀ out, Drives out (connections out)) :
    (drive scope type span fun out => return (kind, connections out)).Ends design
      (fun out after => design.Makes after [kind] out type ∧
        ∀ words word, kind.compute? (pinWord words (connections out)) = some word →
          design.evaluate after words out = word) fun _ => False := by
  apply (ends_drive span place scalar (fun out mid kinds result => design.Adds mid [] ∧ kinds = [] ∧
    result = (kind, connections out)) ?_).mono
  · rintro out after ⟨mid, _, _, ⟨adds, rfl, rfl⟩, makes, delivers⟩
    constructor
    · exact makes
    · intro words word computes
      apply delivers words word
      rwa [adds.evaluate_nil]
  · intro opened out opens carries
    rw [ends_pure]
    exact ⟨[], .refl opened, keeps opened out opens.grows carries, drives out, opens, rfl, rfl⟩

theorem ends_constant {value : Bits} (definite : value.isDefinite = true)
    (place : (design.scope? scope).isSome) (signed : Bool) (span : Span) :
    (constant scope value signed span).Ends design
      (fun out after => design.Makes after [.constant value] out (.vector value.width signed) ∧
        ∀ words, design.evaluate after words out = .ofBits value) fun _ => False := by
  apply (ends_drive_known span place (by simp [ValueType.vector])
    (fun _ _ _ carries => keeps_constant value carries.sees)
    fun _ => rfl).mono
  rintro out after ⟨makes, delivers⟩
  constructor
  · exact makes
  · intro words
    exact delivers words _ (if_pos definite)

theorem ends_part {id : NetId} {source target : ValueType} (carries : design.Carries id source)
    (offset : Nat) (scalar : target.domain = .real → target.width = 1) (span : Span)
    (place : (design.scope? scope).isSome) :
    (drive scope target span fun part => return (.partSelect target.width source.width
      (.fixed offset), [⟨.vector, id⟩, ⟨.part, part⟩])).Ends design
      (fun part after =>
        design.Makes after [.partSelect target.width source.width (.fixed offset)] part target ∧
          ∀ words : Valuation,
            design.evaluate after words part = ((words id).drop offset).take target.width)
      fun _ => False := by
  refine Ends.mono (ends_drive_known span place scalar ?_ fun _ => rfl) ?_
  · intro opened part grown onPart
    exact keeps_fixedPart offset (carries.grows grown).sees onPart.sees
  · rintro part after ⟨makes, delivers⟩
    constructor
    · exact makes
    · intro words
      exact delivers words _ rfl

theorem ends_join {low high : NetId} {typeL typeH target : ValueType}
    (onLow : design.Carries low typeL) (onHigh : design.Carries high typeH)
    (sum : typeL.width + typeH.width = target.width)
    (scalar : target.domain = .real → target.width = 1) (span : Span)
    (place : (design.scope? scope).isSome) :
    (drive scope target span fun out => return (.concat target.width 2,
      [⟨.output, out⟩, ⟨.input 0, low⟩, ⟨.input 1, high⟩])).Ends design
      (fun out after => design.Makes after [.concat target.width 2] out target ∧
        ∀ words : Valuation, design.evaluate after words out = words low ++ words high)
      fun _ => False := by
  refine Ends.mono (ends_drive_known span place scalar ?_ fun _ => rfl) ?_
  · intro opened out grown onOut
    exact keeps_join (onLow.grows grown).sees (onHigh.grows grown).sees onOut.sees sum
  · rintro out after ⟨makes, delivers⟩
    constructor
    · exact makes
    · intro words
      apply delivers words
      simp [DeviceKind.compute?, pinWord, NetRef.read, List.range_succ]

end Build
end NetSynth
