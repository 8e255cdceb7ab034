import NetSynth.Proofs.Commands
import NetSynth.Proofs.Numbers
import NetSynth.Proofs.Resizing

/-! Part-selects whose base is a constant: which bases are settled beforehand, what is added for
those and for the others, and the offset as machine words hold it. -/
namespace NetSynth

/-- Machine words lose nothing of an offset: sixty-four bits hold the end of a part, and thirty-two
bits an offset inside the vector. -/
structure Narrows (offset : Int) (width vectorWidth : Nat) : Prop where
  ends : (BitVec.ofInt 64 offset + BitVec.ofNat 64 width).toInt = offset + width
  starts : 0 ≤ offset → offset + width ≤ vectorWidth →
    (((BitVec.ofInt 64 offset).setWidth 32).toNat : Int) = offset

theorem narrows_of_fits {offset : Int} {width vectorWidth : Nat} (fits : FitsInt64 offset)
    (fitsEnd : FitsInt64 (offset + width)) (narrow : vectorWidth < 2 ^ 32) :
    Narrows offset width vectorWidth := by
  obtain ⟨low, high⟩ := fits
  obtain ⟨lowEnd, highEnd⟩ := fitsEnd
  constructor
  · rw [← BitVec.ofInt_natCast, ← BitVec.ofInt_add, BitVec.toInt_ofInt]
    exact Int.bmod_eq_of_le (by omega) (by omega)
  · intro start inside
    obtain ⟨place, rfl⟩ := Int.eq_ofNat_of_zero_le start
    rw [BitVec.toNat_setWidth, BitVec.ofInt_natCast, BitVec.toNat_ofNat]
    omega

namespace Design

theorem root_of_place {design : Design} {scope : ScopeId} (place : (design.scope? scope).isSome) :
    (design.scope? .root).isSome := by
  obtain ⟨found, known⟩ := Option.isSome_iff_exists.mp place
  obtain ⟨inside, _⟩ := Array.getElem?_eq_some_iff.mp known
  have first : design.scope? .root = some _ :=
    Array.getElem?_eq_getElem (Nat.zero_lt_of_lt inside)
  rw [first]
  rfl

variable {base : Design} {node : Node} {id : NetId} {vector : Net} {offset : Int}
  {run : Except Stop (Option NetId) × Design}

/-- A part-select from an offset that is known beforehand. Inside the vector a device with that
offset is all that is added; otherwise a report is. -/
structure SettlesPart (base : Design) (run : Except Stop (Option NetId) × Design) (node : Node)
    (id : NetId) (vector : Net) (offset : Int) : Prop where
  inside : 0 ≤ offset ∧ offset + node.width ≤ vector.width → ∃ start part after,
    ((start : Nat) : Int) = offset ∧ run = (.ok (some part), after) ∧
    base.Makes after [.partSelect node.width vector.width (.fixed start)] part
      ⟨node.width, vector.domain, node.signed⟩ ∧
    ∀ words : Valuation,
      base.evaluate after words part = ((words id).drop start).take node.width
  outside : ¬(0 ≤ offset ∧ offset + node.width ≤ vector.width) →
    let problem := Problem.partOutside offset node.width vector.width
    run = (.ok none, { base with log := base.log.report (problem.diagnostic node.span) })

/-- A part-select from a net that carries a constant. -/
def ReadsPart (base : Design) (run : Except Stop (Option NetId) × Design) (node : Node)
    (vector : Net) (value : Bits) : Prop :=
  ∃ part after, run = (.ok (some part), after) ∧
    base.Makes after [.constant value, .partSelect node.width vector.width (.dynamic value.width)]
      part ⟨node.width, vector.domain, node.signed⟩

theorem ReadsPart.not_settles {value : Bits} (reads : base.ReadsPart run node vector value) :
    ¬base.SettlesPart run node id vector offset := by
  intro settles
  obtain ⟨part, after, ran, makes⟩ := reads
  by_cases inside : 0 ≤ offset ∧ offset + node.width ≤ vector.width
  · obtain ⟨start, part', after', _, ran', makes', _⟩ := settles.inside inside
    rw [ran] at ran'
    cases ran'
    have kinds := makes.kinds.symm.trans makes'.kinds
    cases kinds
  · have failed := settles.outside inside
    rw [ran] at failed
    cases failed

end Design

/-- The part that starts at a known place, or at the value of a net. -/
def Rule.takePart (node : Node) (id : NetId) (vector : Net) (start : PartBase × Option NetId) :
    Build NetId :=
  Build.drive vector.scope ⟨node.width, vector.domain, node.signed⟩ node.span fun part =>
    return (.partSelect node.width vector.width start.1, [⟨.vector, id⟩, ⟨.part, part⟩] ++
      start.2.toList.map fun net => ⟨.base, net⟩)

section Runs

open Build Design

variable {design mid : Design} {node : Node} {id : NetId} {vector : Net} {attempt : Attempt NetId}
  {expr : Expr}

theorem Build.ends_takePart_fixed (carries : mid.Carries id vector.toValueType)
    (bits : vector.domain ≠ .real) (place : (mid.scope? vector.scope).isSome) (start : Nat) :
    (Rule.takePart node id vector (.fixed start, none)).Ends mid (fun part after =>
      mid.Makes after [.partSelect node.width vector.width (.fixed start)] part
        ⟨node.width, vector.domain, node.signed⟩ ∧
      ∀ words : Valuation,
        mid.evaluate after words part = ((words id).drop start).take node.width)
      fun _ => False :=
  @ends_part mid vector.scope id vector.toValueType ⟨node.width, vector.domain, node.signed⟩ carries
    start (fun real => absurd real bits) node.span place

theorem Build.ends_takePart_dynamic {base : NetId} {width : Nat} {signed : Bool}
    (carries : mid.Carries id vector.toValueType) (onBase : mid.Carries base (.vector width signed))
    (bits : vector.domain ≠ .real) (place : (mid.scope? vector.scope).isSome) :
    (Rule.takePart node id vector (.dynamic width, some base)).Ends mid
      (fun part after =>
        mid.Makes after [.partSelect node.width vector.width (.dynamic width)] part
          ⟨node.width, vector.domain, node.signed⟩) fun _ => False := by
  refine Ends.mono (ends_drive_known node.span place ?_ ?_ fun _ => rfl) fun _ _ made => made.1
  · exact fun real => absurd real bits
  · intro opened part grown onPart
    exact keeps_dynamicPart (carries.grows grown).sees onPart.sees (onBase.grows grown).sees

variable (built : attempt.run.runOn design = (.ok (some id), mid))
  (known : mid.net? id = some vector)
include built known

theorem Rule.runOn_partSelect (base : Operand) :
    (partSelect node ⟨expr, attempt⟩ base).run.runOn design =
      (partBase node vector.width base >>= fun start =>
        (liftM (takePart node id vector start) : Attempt NetId)).run.runOn mid := by
  rw [partSelect, Attempt.run_bind, built]
  dsimp only
  rw [Attempt.run_bind, Attempt.run_liftM, runOn_net known]
  rfl

variable (bits : vector.domain ≠ .real) (place : (mid.scope? vector.scope).isSome)
include bits place

theorem Rule.partSelect_settles {base : Operand} {offset : Int}
    (fixed : base.expr.constant?.bind (·.toInt? base.expr.signed) = some offset) :
    mid.SettlesPart ((partSelect node ⟨expr, attempt⟩ base).run.runOn design) node id vector
      offset := by
  have carries : mid.Carries id vector.toValueType :=
    ⟨⟨vector, known, rfl, place⟩, fun real => absurd real bits⟩
  rw [runOn_partSelect built known]
  constructor
  · rintro ⟨start, inside⟩
    have onBase : (partBase node vector.width base).run.runOn mid =
        (.ok (some (.fixed offset.toNat, none)), mid) := by
      rw [partBase, fixed]
      dsimp only
      rw [if_neg (by omega)]
      rfl
    obtain ⟨part, after, ran, makes, delivers⟩ :=
      (ends_takePart_fixed carries bits place offset.toNat).succeeds
    refine ⟨offset.toNat, part, after, Int.toNat_of_nonneg start, ?_, makes, delivers⟩
    rw [Attempt.run_bind, onBase]
    dsimp only
    rw [Attempt.run_liftM, ran]
  · intro outside
    rw [Attempt.run_bind, partBase, fixed]
    dsimp only
    rw [if_pos (by omega)]
    rfl

theorem Rule.partSelect_reads (generation : Generation) (baseNode : Node) {value : Bits}
    (definite : value.isDefinite = true) (long : value.toInt? baseNode.signed = none) :
    mid.ReadsPart ((partSelect node ⟨expr, attempt⟩ ⟨.constant baseNode value,
      Expr.build generation (.constant baseNode value)⟩).run.runOn design) node vector value := by
  have carries : mid.Carries id vector.toValueType :=
    ⟨⟨vector, known, rfl, place⟩, fun real => absurd real bits⟩
  have onBase : (partBase node vector.width ⟨.constant baseNode value,
      Expr.build generation (.constant baseNode value)⟩).Ends mid (fun start after =>
        ∃ out, start = (.dynamic value.width, some out) ∧
          mid.Makes after [.constant value] out (.vector value.width baseNode.signed))
      (fun _ => False) fun _ => False := by
    have unsettled : (Expr.constant baseNode value).constant?.bind
        (·.toInt? (Expr.constant baseNode value).signed) = none := long
    rw [partBase, unsettled, Expr.build]
    simp only [Attempt.ends_bind, Attempt.ends_liftM]
    apply (ends_constant definite (root_of_place place) baseNode.signed baseNode.span).mono
    rintro out after ⟨makes, _⟩
    apply ends_net_carries makes.carries
    rintro source same _
    exact ⟨out, congrArg (fun type => (PartBase.dynamic type.width, some out)) same, makes⟩
  obtain ⟨_, mid', ran, out, rfl, made⟩ := onBase.outcome.resolve_right (by simp)
  obtain ⟨part, after, ranPart, makes⟩ :=
    (ends_takePart_dynamic (carries.grows made.grows) made.carries bits
      (made.grows.scope place)).succeeds
  refine ⟨part, after, ?_, made.toAdds.makes makes⟩
  rw [runOn_partSelect built known, Attempt.run_bind, ran]
  dsimp only
  rw [Attempt.run_liftM, ranPart]

end Runs

/-- A part-select with a definite constant as its base is settled beforehand exactly where the
constant is short; then machine words lose nothing of its number, as long as they hold the end of
the part. Every longer constant is built as a net, whatever its number is. -/
theorem constant_part_selects_static_iff {design mid : Design} (settings : SynthesisSettings)
    (node : Node) {expr : Expr} {id : NetId}
    (built : (synthesize settings expr).runOn design = (.ok (some id), mid)) {vector : Net}
    (known : mid.net? id = some vector) (bits : vector.domain ≠ .real)
    (place : (mid.scope? vector.scope).isSome) (baseNode : Node) {value : Bits}
    (definite : value.isDefinite = true) :
    let base := Expr.constant baseNode value
    let run := (synthesize settings (.partSelect node expr base)).runOn design
    let number := value.number baseNode.signed
    (mid.SettlesPart run node id vector number ↔ value.IsShort baseNode.signed) ∧
      (¬value.IsShort baseNode.signed → mid.ReadsPart run node vector value) ∧
      (value.IsShort baseNode.signed → FitsInt64 (number + node.width) →
        vector.width < 2 ^ 32 → Narrows number node.width vector.width) := by
  intro base run number
  have same : run = (Rule.partSelect node ⟨expr, expr.build settings.generation⟩
      ⟨base, base.build settings.generation⟩).run.runOn design := by
    simp only [run, synthesize, Expr.build]
  have offset := Bits.toInt?_of_definite definite baseNode.signed
  have long (beyond : ¬value.IsShort baseNode.signed) :
      mid.ReadsPart run node vector value := by
    rw [if_neg beyond] at offset
    rw [same]
    exact Rule.partSelect_reads built known bits place _ baseNode definite offset
  constructor
  · constructor
    · intro settles
      by_contra beyond
      exact (long beyond).not_settles settles
    · intro short
      rw [if_pos short] at offset
      rw [same]
      exact Rule.partSelect_settles built known bits place offset
  · exact ⟨long, fun short ends narrow => narrows_of_fits short.2 ends narrow⟩

theorem constant_part_selects_static_end :
    let design := Design.reached "top" [.addSignal .root "v" (.vector 8 false) .nowhere]
    let node : Node := ⟨.vector 4 false, .nowhere⟩
    let baseNode : Node := ⟨.vector 3 false, .nowhere⟩
    let v := Expr.signal ⟨.vector 8 false, .nowhere⟩ ⟨0⟩
    let base := Expr.constant baseNode (Bits.ofNat 4 3)
    ∃ vector, design.net? ⟨0⟩ = some vector ∧ vector.width = 8 ∧
      design.SettlesPart ((synthesize {} (.partSelect node v base)).runOn design) node ⟨0⟩ vector 4 ∧
      Narrows 4 4 8 := by
  intro design node baseNode v base
  have built : (synthesize {} v).runOn design = (.ok (some ⟨0⟩), design) := rfl
  have number : (Bits.ofNat 4 3).number baseNode.signed = 4 := by decide +kernel
  have short : (Bits.ofNat 4 3).IsShort baseNode.signed := by decide +kernel
  have definite : (Bits.ofNat 4 3).isDefinite = true := by decide +kernel
  obtain ⟨settles, _, narrows⟩ :=
    constant_part_selects_static_iff {} node built rfl nofun rfl baseNode definite
  rw [number] at settles narrows
  exact ⟨_, rfl, rfl, settles.mpr short, narrows short (by decide) (by decide)⟩

/-- Seventy zeros as a base are built as a net, although the part would lie inside the vector. -/
theorem constant_part_selects_wide :
    let design := Design.reached "top" [.addSignal .root "v" (.vector 8 false) .nowhere]
    let v := Expr.signal ⟨.vector 8 false, .nowhere⟩ ⟨0⟩
    let base := Expr.constant ⟨.vector 70 false, .nowhere⟩ (.zeros 70)
    let run := (synthesize {} (.partSelect ⟨.vector 4 false, .nowhere⟩ v base)).runOn design
    (Bits.zeros 70).isDefinite = true ∧ (Bits.zeros 70).number false = 0 ∧
      run.1.toOption = some (some ⟨2⟩) ∧ run.2.devices.toList.map (·.kind) =
        [.constant (.zeros 70), .partSelect 4 8 (.dynamic 70)] := by
  exact ⟨by decide +kernel, by decide +kernel, by decide +kernel, rfl⟩

end NetSynth
