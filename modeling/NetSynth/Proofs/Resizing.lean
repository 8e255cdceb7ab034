import NetSynth.Proofs.Additions
import NetSynth.Proofs.Commands

/-! Nets brought to another width. What the coercions deliver is told as a function of the word on
the given net, so that coercions one after another compose as functions do. -/
namespace NetSynth

theorem Word.length_extend_eq (signed : Bool) (width : Nat) (word : Word) :
    (word.extend signed width).length = max word.length width := by
  rw [extend, List.length_append, List.length_replicate]
  omega

theorem Word.extend_extend {first second : Nat} (signed : Bool) (order : first ≤ second)
    (word : Word) :
    (word.extend signed first).extend signed second = word.extend signed second := by
  rcases Nat.le_total word.length first with narrow | wide
  · have top := @top_extend word first signed narrow
    have length := @length_extend word first signed narrow
    rw [extend, top, length, extend, extend, List.append_assoc, List.replicate_append_replicate]
    congr 2
    omega
  · rw [extend_of_ge wide]

namespace Design

variable {before mid after : Design} {source middle out : NetId} {width : Nat}
  {type type' : ValueType} {first second : Word → Word}

/-- Whatever word of the width is on the source net, the other net carries what the function makes
of it. -/
def Delivers (before after : Design) (source : NetId) (width : Nat) (out : NetId)
    (function : Word → Word) : Prop :=
  ∀ words, (words source).length = width → before.evaluate after words out = function (words source)

/-- From the source net the run came to a net of the type, which carries what the function makes of
the word on the source. -/
structure Brings (before after : Design) (source : NetId) (width : Nat) (out : NetId)
    (type : ValueType) (function : Word → Word) : Prop where
  grows : before.Grows after
  carries : after.Carries out type
  delivers : before.Delivers after source width out function

theorem Brings.self {design : Design} {id : NetId} (carries : design.Carries id type)
    (same : ∀ word : Word, word.length = width → first word = word) :
    design.Brings design id width id type first where
  grows := .refl design
  carries := carries
  delivers := by
    intro words length
    rw [evaluate_self, same _ length]

theorem Brings.trans (onFirst : before.Brings mid source width middle type first)
    (onSecond : mid.Brings after middle type.width out type' second)
    (lengths : ∀ word : Word, word.length = width → (first word).length = type.width) :
    before.Brings after source width out type' fun word => second (first word) where
  grows := onFirst.grows.trans onSecond.grows
  carries := onSecond.carries
  delivers := by
    intro words length
    have delivered := onFirst.delivers words length
    rw [evaluate_trans onFirst.grows onSecond.grows, onSecond.delivers, delivered]
    rw [delivered, lengths _ length]

theorem Brings.agrees {after' : Design} {direct : NetId}
    (onFirst : before.Brings after source width out type first)
    (onSecond : before.Brings after' source width direct type' first) {words : Valuation}
    (length : (words source).length = width) :
    before.evaluate after words out = before.evaluate after' words direct :=
  (onFirst.delivers words length).trans (onSecond.delivers words length).symm

end Design

namespace Build

open Design

variable {design : Design} {id : NetId} {type : ValueType} {width : Nat}

/-- The devices that widen a net. -/
def extensionKinds (inputWidth width : Nat) (signed : Bool) : List DeviceKind :=
  if signed then [.signExtend width inputWidth]
  else [.constant (.zeros (width - inputWidth)), .concat width 2]

theorem ends_net_carries {done : Net → Design → Prop} {stopped : Design → Prop}
    (carries : design.Carries id type)
    (given : ∀ source, source.toValueType = type → (design.scope? source.scope).isSome →
      done source design) : (net id).Ends design done stopped := by
  obtain ⟨source, known, same, place⟩ := carries.stored
  rw [ends_net_of known]
  exact given source same place

theorem ends_extend_makes (carries : design.Carries id type) (narrow : type.width < width)
    (vector : type.domain ≠ .real) (signed : Bool) (span : Span) :
    (extend id width signed span).Ends design (fun out after =>
      design.Makes after (extensionKinds type.width width signed) out ⟨width, type.domain, signed⟩ ∧
        design.Delivers after id type.width out (Word.extend signed width)) fun _ => False := by
  rw [extend, ends_bind]
  apply ends_net_carries carries
  rintro source rfl place
  rw [if_neg (Nat.not_le.mpr narrow)]
  have scalar : ∀ signed, (⟨width, source.domain, signed⟩ : ValueType).domain = .real → width = 1 :=
    fun _ real => absurd real vector
  cases signed with
  | true =>
    simp only [if_true]
    refine Ends.mono (ends_drive_known span place (scalar _) ?_ fun _ => rfl) ?_
    · intro opened out grown onOut
      exact keeps_signExtend (carries.grows grown).sees onOut.sees vector
    · rintro out after ⟨makes, delivers⟩
      constructor
      · exact makes
      · intro words _
        exact delivers words _ rfl
  | false =>
    -- The zeros are built while the output waits for its driver.
    refine Ends.mono (ends_drive span place (scalar _) (fun out mid kinds result =>
      kinds = [.constant (.zeros (width - source.width))] ∧ ∃ padding, (∀ words : Valuation,
        design.evaluate mid words id = words id ∧
        design.evaluate mid words padding = List.replicate (width - source.width) false) ∧
      result = (.concat width 2, [⟨.output, out⟩, ⟨.input 0, id⟩, ⟨.input 1, padding⟩])) ?_) ?_
    · intro opened out opens onOut
      have onId := carries.grows opens.grows
      simp only [Bool.false_eq_true, if_false, ends_bind, ends_pure]
      apply (ends_constant (Valued.definite_zeros _) (opens.grows.scope place) false span).mono
      rintro padding mid ⟨makes, zeros⟩
      refine ⟨_, makes.toAdds, ?_, rfl, rfl, padding, fun words => ⟨?_, ?_⟩, rfl⟩
      · exact keeps_join (onId.grows makes.grows).sees makes.carries.sees
          (onOut.grows makes.grows).sees (Nat.add_sub_cancel' (Nat.le_of_lt narrow))
      · exact (opens.trans makes.toAdds).keeps words id carries.isSome
      · rw [evaluate_trans opens.grows makes.grows, zeros, Valued.ofBits_zeros]
    · rintro out after ⟨mid, kinds, result, ⟨rfl, padding, reads, rfl⟩, makes, delivers⟩
      constructor
      · exact makes
      · intro words length
        apply delivers words
        simp [DeviceKind.compute?, pinWord, NetRef.read, List.range_succ, reads, Word.extend, length]

theorem ends_crop_makes (carries : design.Carries id type) (wide : width < type.width)
    (vector : type.domain ≠ .real) (span : Span) :
    (crop id width span).Ends design (fun out after =>
      design.Makes after [.partSelect width type.width (.fixed 0)] out { type with width } ∧
        design.Delivers after id type.width out (List.take width)) fun _ => False := by
  rw [crop, ends_bind]
  apply ends_net_carries carries
  rintro source rfl place
  rw [if_neg (Nat.not_le.mpr wide)]
  have scalar : { source.toValueType with width }.domain = .real → width = 1 :=
    fun real => absurd real vector
  refine Ends.mono (ends_part carries 0 scalar span place) ?_
  rintro out after ⟨makes, delivers⟩
  constructor
  · exact makes
  · intro words _
    exact delivers words

section Steps

variable {source : Net} (known : design.net? id = some source) (span : Span)
include known

theorem runOn_pad_wide (wide : width ≤ source.width) :
    (pad id width span).runOn design = (.ok id, design) := by
  rw [pad, runOn_bind, runOn_net known]
  dsimp only
  rw [if_pos (by simp [wide])]
  rfl

theorem runOn_pad_narrow (narrow : source.width < width) (vector : source.domain ≠ .real) :
    (pad id width span).runOn design = (extend id width source.signed span).runOn design := by
  rw [pad, runOn_bind, runOn_net known]
  dsimp only
  rw [if_neg (by simp [Domain.isReal, vector, narrow])]

theorem runOn_crop_narrow (narrow : source.width ≤ width) :
    (crop id width span).runOn design = (.ok id, design) := by
  rw [crop, runOn_bind, runOn_net known]
  dsimp only
  rw [if_pos narrow]
  rfl

theorem runOn_extend_wide (wide : width ≤ source.width) (signed : Bool) :
    (extend id width signed span).runOn design =
      (.error (.fault (.narrowExtension id source.width width)), design) := by
  rw [extend, runOn_bind, runOn_net known]
  dsimp only
  rw [if_pos wide]
  rfl

theorem runOn_fit_same (same : source.width = width) :
    (fit id width span).runOn design = (.ok id, design) := by
  rw [fit, runOn_bind, runOn_pad_wide known span (Nat.le_of_eq same.symm)]
  exact runOn_crop_narrow known span (Nat.le_of_eq same)

end Steps

section Composition

variable (carries : design.Carries id type) (vector : type.domain ≠ .real) (width : Nat)
  (span : Span)
include carries vector

theorem pad_brings : ∃ out after, (pad id width span).runOn design = (.ok out, after) ∧
    design.Brings after id type.width out { type with width := max type.width width }
      (Word.extend type.signed width) := by
  obtain ⟨source, known, rfl, _⟩ := carries.stored
  rcases Nat.lt_or_ge source.width width with narrow | wide
  · obtain ⟨out, after, ran, makes, delivers⟩ :=
      (ends_extend_makes carries narrow vector source.signed span).succeeds
    refine ⟨out, after, (runOn_pad_narrow known span narrow vector).trans ran, makes.grows, ?_,
      delivers⟩
    rw [Nat.max_eq_right (Nat.le_of_lt narrow)]
    exact makes.carries
  · refine ⟨id, design, runOn_pad_wide known span wide, .self ?_ ?_⟩
    · rw [Nat.max_eq_left wide]
      exact carries
    · intro word length
      exact Word.extend_of_ge (length ▸ wide)

theorem crop_brings : ∃ out after, (crop id width span).runOn design = (.ok out, after) ∧
    design.Brings after id type.width out { type with width := min type.width width }
      (List.take width) := by
  obtain ⟨source, known, rfl, _⟩ := carries.stored
  rcases Nat.lt_or_ge width source.width with wide | narrow
  · obtain ⟨out, after, ran, makes, delivers⟩ := (ends_crop_makes carries wide vector span).succeeds
    refine ⟨out, after, ran, makes.grows, ?_, delivers⟩
    rw [Nat.min_eq_right (Nat.le_of_lt wide)]
    exact makes.carries
  · refine ⟨id, design, runOn_crop_narrow known span narrow, .self ?_ ?_⟩
    · rw [Nat.min_eq_left narrow]
      exact carries
    · intro word length
      exact List.take_of_length_le (length ▸ narrow)

/-- Padding to one width and then to a wider one brings what padding to the wider one does. -/
theorem pad_pad_brings {first : Nat} (order : first ≤ width) : ∃ out after,
    (pad id first span >>= fun padded => pad padded width span).runOn design = (.ok out, after) ∧
      design.Brings after id type.width out { type with width := max type.width width }
        (Word.extend type.signed width) := by
  obtain ⟨middle, mid, ranFirst, onFirst⟩ := pad_brings carries vector first span
  obtain ⟨out, after, ranSecond, onSecond⟩ := pad_brings onFirst.carries vector width span
  refine ⟨out, after, ?_, ?_⟩
  · rw [runOn_bind, ranFirst]
    exact ranSecond
  · have both := onFirst.trans onSecond fun word length => by
      rw [Word.length_extend_eq, length]
    have widest : max (max type.width first) width = max type.width width := by omega
    simpa only [widest, Word.extend_extend type.signed order] using both

theorem crop_crop_brings {first : Nat} (order : width ≤ first) : ∃ out after,
    (crop id first span >>= fun cropped => crop cropped width span).runOn design =
        (.ok out, after) ∧
      design.Brings after id type.width out { type with width := min type.width width }
        (List.take width) := by
  obtain ⟨middle, mid, ranFirst, onFirst⟩ := crop_brings carries vector first span
  obtain ⟨out, after, ranSecond, onSecond⟩ := crop_brings onFirst.carries vector width span
  refine ⟨out, after, ?_, ?_⟩
  · rw [runOn_bind, ranFirst]
    exact ranSecond
  · have both := onFirst.trans onSecond fun word length => by
      rw [List.length_take, length, Nat.min_comm]
    have narrowest : min (min type.width first) width = min type.width width := by omega
    simpa only [narrowest, List.take_take, Nat.min_eq_left order] using both

/-- Padding and then cropping brings a net to the width, as the number that its word stands for. -/
theorem fit_brings : ∃ out after, (fit id width span).runOn design = (.ok out, after) ∧
    design.Brings after id type.width out { type with width }
      fun word => .ofInt width (word.toInt type.signed) := by
  obtain ⟨middle, mid, ranPad, onPad⟩ := pad_brings carries vector width span
  obtain ⟨out, after, ranCrop, onCrop⟩ := crop_brings onPad.carries vector width span
  refine ⟨out, after, ?_, ?_⟩
  · rw [fit, runOn_bind, ranPad]
    exact ranCrop
  · have both := onPad.trans onCrop fun word length => by
      rw [Word.length_extend_eq, length]
    simp only [Word.take_extend] at both
    have exactly : min (max type.width width) width = width := by omega
    simpa only [exactly] using both

end Composition

/-- What the coercions make of a net: which of them leave it alone, and what is new where they do
not. The word on the new net is told by the word on the given one. -/
structure Resizing (design : Design) (id : NetId) (net : Net) (width : Nat) (span : Span) :
    Prop where
  padKeeps : width ≤ net.width → (pad id width span).runOn design = (.ok id, design)
  padWidens : net.width < width → ∃ out after,
    (pad id width span).runOn design = (.ok out, after) ∧
    design.Makes after (extensionKinds net.width width net.signed) out
      ⟨width, net.domain, net.signed⟩ ∧
    design.Delivers after id net.width out (Word.extend net.signed width)
  cropKeeps : net.width ≤ width → (crop id width span).runOn design = (.ok id, design)
  cropNarrows : width < net.width → ∃ out after,
    (crop id width span).runOn design = (.ok out, after) ∧
    design.Makes after [.partSelect width net.width (.fixed 0)] out
      ⟨width, net.domain, net.signed⟩ ∧
    design.Delivers after id net.width out (List.take width)
  extendRefuses : ∀ signed, width ≤ net.width → (extend id width signed span).runOn design =
    (.error (.fault (.narrowExtension id net.width width)), design)
  extendWidens : ∀ signed, net.width < width → ∃ out after,
    (extend id width signed span).runOn design = (.ok out, after) ∧
    design.Makes after (extensionKinds net.width width signed) out ⟨width, net.domain, signed⟩ ∧
    design.Delivers after id net.width out (Word.extend signed width)
  fits : ∃ out after, (fit id width span).runOn design = (.ok out, after) ∧
    after.Carries out ⟨width, net.domain, net.signed⟩ ∧
    design.Delivers after id net.width out (fun word => .ofInt width (word.toInt net.signed)) ∧
    ∀ again, (fit out width again).runOn after = (.ok out, after)
  padsInSteps : ∀ first ≤ width, ∃ out after direct after',
    (pad id first span >>= fun padded => pad padded width span).runOn design = (.ok out, after) ∧
    (pad id width span).runOn design = (.ok direct, after') ∧
    after.Carries out ⟨max net.width width, net.domain, net.signed⟩ ∧
    after'.Carries direct ⟨max net.width width, net.domain, net.signed⟩ ∧
    ∀ words : Valuation, (words id).length = net.width →
      design.evaluate after words out = design.evaluate after' words direct
  cropsInSteps : ∀ first ≥ width, ∃ out after direct after',
    (crop id first span >>= fun cropped => crop cropped width span).runOn design =
      (.ok out, after) ∧
    (crop id width span).runOn design = (.ok direct, after') ∧
    after.Carries out ⟨min net.width width, net.domain, net.signed⟩ ∧
    after'.Carries direct ⟨min net.width width, net.domain, net.signed⟩ ∧
    ∀ words : Valuation, (words id).length = net.width →
      design.evaluate after words out = design.evaluate after' words direct

end Build

open Build in
/-- Coercions bring every net that is not real to the width asked for, extended by its sign or cut
down to its low bits. They leave a net alone that fits, and two steps in one direction come to the
same as one. -/
theorem coercions_resize (design : Design) (id : NetId) (net : Net)
    (known : design.net? id = some net) (vector : net.domain ≠ .real)
    (place : (design.scope? net.scope).isSome) (width : Nat) (span : Span) :
    Resizing design id net width span := by
  have carries : design.Carries id net.toValueType :=
    ⟨⟨net, known, rfl, place⟩, fun real => absurd real vector⟩
  constructor
  · exact runOn_pad_wide known span
  · intro narrow
    rw [runOn_pad_narrow known span narrow vector]
    exact (ends_extend_makes carries narrow vector net.signed span).succeeds
  · exact runOn_crop_narrow known span
  · intro wide
    exact (ends_crop_makes carries wide vector span).succeeds
  · intro signed wide
    exact runOn_extend_wide known span wide signed
  · intro signed narrow
    exact (ends_extend_makes carries narrow vector signed span).succeeds
  · obtain ⟨out, after, ran, brings⟩ := fit_brings carries vector width span
    refine ⟨out, after, ran, brings.carries, brings.delivers, fun again => ?_⟩
    obtain ⟨fitted, known, same, _⟩ := brings.carries.stored
    exact runOn_fit_same known again (congrArg ValueType.width same)
  · intro first order
    obtain ⟨out, after, ran, onSteps⟩ := pad_pad_brings carries vector width span order
    obtain ⟨direct, after', ranDirect, onDirect⟩ := pad_brings carries vector width span
    exact ⟨out, after, direct, after', ran, ranDirect, onSteps.carries, onDirect.carries,
      fun words length => onSteps.agrees onDirect length⟩
  · intro first order
    obtain ⟨out, after, ran, onSteps⟩ := crop_crop_brings carries vector width span order
    obtain ⟨direct, after', ranDirect, onDirect⟩ := crop_brings carries vector width span
    exact ⟨out, after, direct, after', ran, ranDirect, onSteps.carries, onDirect.carries,
      fun words length => onSteps.agrees onDirect length⟩

/-- A signed net of four bits, asked for at six. -/
theorem coercions_resize_signed :
    let design := Design.reached "top" [.addSignal .root "a" (.vector 4 true) .nowhere]
    ∃ net, design.net? ⟨0⟩ = some net ∧ net.toValueType = .vector 4 true ∧
      Build.Resizing design ⟨0⟩ net 6 .nowhere := by
  intro design
  exact ⟨_, rfl, rfl, coercions_resize design ⟨0⟩ _ rfl nofun rfl 6 .nowhere⟩

end NetSynth
