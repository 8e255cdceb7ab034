import NetSynth.Proofs.Meaning
import NetSynth.Proofs.Packing
import NetSynth.Proofs.TypedRuns

/-! The words on the nets that runs return, whenever every new device carries what it computes: for
a new device, for operands, and for the coercions. -/
namespace NetSynth

/-- The nets of the earlier design carry words of their width, and every device that was added
since carries on its output what it computes. -/
structure Design.Settles (base after : Design) (words : Valuation) : Prop where
  sized : ∀ {id net}, base.net? id = some net → (words id).length = net.width
  driven : ∀ device ∈ base.newDevices after, ∀ out,
    Drives out device.connections → ∀ word,
      device.kind.compute? (pinWord words device.connections) = some word → words out = word

/-- The net carries the word, wherever the design settles. -/
def Design.Denotes (base after : Design) (id : NetId) (word : Valuation → Word) : Prop :=
  ∀ ⦃words⦄, base.Settles after words → words id = word words

/-- The net has the type, and carries a word of its width. -/
structure Design.Shows (base after : Design) (id : NetId) (type : ValueType)
    (word : Valuation → Word) : Prop where
  carries : after.Carries id type
  denotes : base.Denotes after id word
  sized : ∀ {words}, base.Settles after words → (word words).length = type.width

namespace Valued

open Conduct

/-- The conduct of runs that may do anything. -/
def anyhow : Conduct := ⟨fun _ _ => True, fun _ => True, fun _ _ => trivial⟩

variable {base start mid after : Design} {id : NetId} {type : ValueType} {word : Valuation → Word}
  {words : Valuation} {α : Type} {value value' : Design → α → Prop}

theorem settles_earlier (grown : mid.Grows after) (settles : base.Settles after words) :
    base.Settles mid words where
  sized := settles.sized
  driven := by
    intro device member
    exact settles.driven device ((Design.newDevices_grows grown).subset member)

theorem denotes_grows (denotes : base.Denotes mid id word) (grown : mid.Grows after) :
    base.Denotes after id word :=
  fun _ settles => denotes (settles_earlier grown settles)

theorem shows_grows (shown : base.Shows mid id type word) (grown : mid.Grows after) :
    base.Shows after id type word where
  carries := shown.carries.grows grown
  denotes := denotes_grows shown.denotes grown
  sized := fun settles => shown.sized (settles_earlier grown settles)

theorem anyhow_builds {run : Build α} (builds : Typed.unstopped.Builds start run value) :
    anyhow.Builds start run value := by
  intro pending design grown holds
  apply (@builds pending design grown holds).imp
  · exact fun _ _ known => known
  · exact fun _ stopped => stopped.2.elim

theorem anyhow_attempts {attempt : Attempt α}
    (attempts : Typed.unstopped.Attempts start attempt value) :
    anyhow.Attempts start attempt value := by
  intro pending design grown holds
  apply (@attempts pending design grown holds).imp
  · exact fun _ _ known => known
  · exact fun _ failed => failed
  · exact fun _ stopped => stopped.2.elim

/-- A run of nets that have types and words. -/
theorem builds_and {run : Build α} (first : Typed.unstopped.Builds start run value)
    (second : anyhow.Builds start run value') :
    anyhow.Builds start run fun after a => value after a ∧ value' after a := by
  intro pending design grown holds
  apply ((anyhow_builds first grown holds).and (@second pending design grown holds)).imp
  · exact fun _ _ ⟨⟨grows, kept, known⟩, _, _, known'⟩ => ⟨grows, kept, known, known'⟩
  · exact fun _ stopped => stopped.1

theorem attempts_and {attempt : Attempt α}
    (first : Typed.unstopped.Attempts start attempt value)
    (second : anyhow.Attempts start attempt value') :
    anyhow.Attempts start attempt fun after a => value after a ∧ value' after a := by
  intro pending design grown holds
  apply ((anyhow_attempts first grown holds).and (@second pending design grown holds)).imp
  · exact fun _ _ ⟨⟨grows, kept, known⟩, _, _, known'⟩ => ⟨grows, kept, known, known'⟩
  · exact fun _ failed => failed.1
  · exact fun _ stopped => stopped.1

theorem fails {fault : Fault} : anyhow.Builds start (Build.fail fault) value :=
  fun _ _ _ _ => ⟨.refl _, trivial⟩

theorem attempt_fails {fault : Fault} :
    anyhow.Attempts start (Build.fail fault : Build (Option α)) value :=
  fun _ _ _ _ => ⟨.refl _, trivial⟩

/-- The net that a device drives carries the word that the device computes. -/
theorem drive {scope : ScopeId} {type : ValueType} {span : Span}
    {device : NetId → Build (DeviceKind × List Connection)} (older : base.Grows start)
    (given : ∀ out mid, start.Grows mid → anyhow.Builds mid (device out) fun after result =>
      Drives out result.2 ∧ ∀ words, base.Settles after words →
        result.1.compute? (pinWord words result.2) = some (word words)) :
    anyhow.Builds start (Build.drive scope type span device) fun after out =>
      base.Denotes after out word := by
  apply Builds.driveBy fun out after result => Drives out result.2 ∧ ∀ words,
    base.Settles after words → result.1.compute? (pinWord words result.2) = some (word words)
  · intro pending design grows _
    cases design.scope? scope with
    | none => trivial
    | some found =>
      dsimp only
      split
      · trivial
      · have grown := design.grows_localNet scope found.nextLocal type span
        exact ⟨trivial, given _ _ (grows.trans grown)⟩
  · rintro out pending mid ⟨kind, connections⟩ grown _ ⟨drives, computes⟩
    cases mid.check kind connections with
    | error fault => trivial
    | ok _ =>
      cases mid.scope? scope with
      | none => trivial
      | some found =>
        refine ⟨trivial, fun words settles => ?_⟩
        have named := mid.grows_nameLocal scope found.nextLocal
        have placed := mid.grows_localDevice scope found.nextLocal kind connections span
        refine settles.driven _ ?_ _ (drives.connect ⟨mid.devices.size⟩
          (mid.nameLocal scope found.nextLocal).1 scope kind span) _ ?_
        · rw [Design.newDevices_pushDevice _ ((older.trans grown).trans named)]
          exact List.mem_append_right _ (List.mem_singleton_self _)
        · simpa using computes words (settles_earlier placed settles)

/-- The common case of `drive`, where the device is known beforehand. -/
theorem drive_known {scope : ScopeId} {type : ValueType} {span : Span} {kind : NetId → DeviceKind}
    {connections : NetId → List Connection} (older : base.Grows start)
    (drives : ∀ out, Drives out (connections out))
    (computes : ∀ out after words, start.Grows after → base.Settles after words →
      (kind out).compute? (pinWord words (connections out)) = some (word words)) :
    anyhow.Builds start
      (Build.drive scope type span fun out => return (kind out, connections out))
      fun after out => base.Denotes after out word :=
  drive older fun out _ grown => Builds.pure fun after more =>
    ⟨drives out, fun words settles => computes out after words (grown.trans more) settles⟩

theorem definite_zeros (width : Nat) : (Bits.zeros width).isDefinite = true := by
  simp [Bits.isDefinite, Bits.levels, Bits.level_zeros, Level.isDefinite]

theorem ofBits_zeros (width : Nat) : Word.ofBits (Bits.zeros width) = List.replicate width false := by
  have width_zeros : (Bits.zeros width).width = width := rfl
  simp [Word.ofBits, Bits.levels, Bits.level_zeros, Function.comp_def, width_zeros]

theorem constant {scope : ScopeId} {value : Bits} {signed : Bool} {span : Span}
    (older : base.Grows start) (definite : value.isDefinite = true) :
    anyhow.Builds start (Build.constant scope value signed span) fun after id =>
      base.Denotes after id fun _ => .ofBits value :=
  drive_known older (fun _ => by simp [Drives, PinName.direction])
    fun _ _ _ _ _ => by simp [DeviceKind.compute?, definite]

theorem extend {width : Nat} {span : Span} (older : base.Grows start)
    (shown : base.Shows start id type word) (signed : Bool) :
    anyhow.Builds start (Build.extend id width signed span) fun after out =>
      base.Denotes after out fun words => (word words).extend signed width := by
  rw [Build.extend]
  apply (Typed.look shown.carries).bind
  rintro source mid grown ⟨_, same, _⟩
  have shown := shows_grows shown grown
  subst same
  split
  · exact fails
  · refine drive (older.trans grown) fun out mid₁ grown₁ => ?_
    cases signed with
    | true =>
      refine Builds.pure fun after more => ⟨by simp [Drives, PinName.direction], ?_⟩
      intro words settles
      have read := shown.denotes (settles_earlier (grown₁.trans more) settles)
      simp [DeviceKind.compute?, pinWord, NetRef.read, read]
    | false =>
      have older₁ := (older.trans grown).trans grown₁
      refine (constant older₁ (definite_zeros _)).bind fun padding mid₂ grown₂ onPadding => ?_
      refine Builds.pure fun after more => ⟨by simp [Drives, PinName.direction], ?_⟩
      intro words settles
      have earlier := settles_earlier ((grown₁.trans grown₂).trans more) settles
      have read := shown.denotes earlier
      have zeros := onPadding (settles_earlier more settles)
      have length := shown.sized earlier
      simp [DeviceKind.compute?, pinWord, NetRef.read, read, zeros, ofBits_zeros, Word.extend,
        length, List.range_succ]

theorem pad {width : Nat} {span : Span} (older : base.Grows start)
    (shown : base.Shows start id type word) (vector : type.domain ≠ .real) :
    anyhow.Builds start (Build.pad id width span) fun after out =>
      base.Denotes after out fun words => (word words).extend type.signed width := by
  rw [Build.pad]
  apply (Typed.look shown.carries).bind
  rintro source mid grown ⟨_, same, _⟩
  have shown := shows_grows shown grown
  subst same
  split
  · rename_i fits
    have wide : source.width ≥ width := by simpa [Domain.isReal, vector] using fits
    refine Builds.pure fun after more words settles => ?_
    have earlier := settles_earlier more settles
    exact (shown.denotes earlier).trans (Word.extend_of_ge (shown.sized earlier ▸ wide)).symm
  · exact extend (older.trans grown) shown _

theorem crop {width : Nat} {span : Span} (older : base.Grows start)
    (shown : base.Shows start id type word) :
    anyhow.Builds start (Build.crop id width span) fun after out =>
      base.Denotes after out fun words => (word words).take width := by
  rw [Build.crop]
  apply (Typed.look shown.carries).bind
  rintro source mid grown ⟨_, same, _⟩
  have shown := shows_grows shown grown
  subst same
  split
  · rename_i fits
    refine Builds.pure fun after more words settles => ?_
    have earlier := settles_earlier more settles
    exact (shown.denotes earlier).trans (List.take_of_length_le (shown.sized earlier ▸ fits)).symm
  · refine drive_known (older.trans grown) (fun _ => by simp [Drives, PinName.direction]) ?_
    intro out after words more settles
    have read := shown.denotes (settles_earlier more settles)
    simp [DeviceKind.compute?, pinWord, NetRef.read, read]

/-- A net at another width carries the low bits of the number that it stood for. -/
theorem fit {width : Nat} {span : Span} (older : base.Grows start)
    (shown : base.Shows start id type word) (vector : type.domain ≠ .real) :
    anyhow.Builds start (Build.fit id width span) fun after out =>
      base.Denotes after out fun words => .ofInt width ((word words).toInt type.signed) := by
  apply (builds_and (Typed.pad shown.carries width span) (pad older shown vector)).bind
  rintro padded mid grown ⟨carries, denotes⟩
  refine (crop (older.trans grown) ⟨carries, denotes, fun settles => ?_⟩).imp
    fun after out _ cropped words settles => ?_
  · have length := (shows_grows shown grown).sized settles
    rw [ValueType.padTo, if_neg (by simpa [Domain.isReal] using vector)]
    simp only [Word.extend, List.length_append, List.length_replicate, length]
    omega
  · exact (cropped settles).trans (Word.take_extend _ _ _)

end Valued
end NetSynth
