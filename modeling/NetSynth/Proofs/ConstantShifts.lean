import NetSynth.Proofs.Additions
import NetSynth.Proofs.ShiftAmounts

/-! Shifts by amounts that are known beforehand, of any width: what they add to a design, the number
on the shifted net, and the distance as sixty-four bits hold it. -/
namespace NetSynth

namespace Word

variable {word : Word} {distance : Nat}

theorem value_split (inside : distance ≤ word.length) :
    value word = value (word.take distance) + 2 ^ distance * value (word.drop distance) := by
  conv_lhs => rw [← List.take_append_drop distance word, value_append, List.length_take_of_le inside]

theorem value_take (inside : distance ≤ word.length) :
    value (word.take distance) = value word % 2 ^ distance := by
  have low := value_lt (word.take distance)
  rw [List.length_take_of_le inside] at low
  rw [value_split inside, Nat.add_mul_mod_self_left, Nat.mod_eq_of_lt low]

theorem value_drop (inside : distance ≤ word.length) :
    value (word.drop distance) = value word / 2 ^ distance := by
  have low := value_lt (word.take distance)
  rw [List.length_take_of_le inside] at low
  rw [value_split inside, Nat.add_mul_div_left _ _ (Nat.two_pow_pos distance),
    Nat.div_eq_of_lt low, Nat.zero_add]

theorem length_shift (right : Bool) (distance : Nat) (word : Word) :
    (word.shift right false distance).length = word.length := by
  rcases Nat.le_total distance word.length with inside | out
  · cases right with
    | true =>
      rw [shift_right inside]
      simp [inside]
    | false =>
      rw [shift_left inside]
      simp
      omega
  · rw [shift_out right out, List.length_replicate]

/-- A shift multiplies or divides by a power of two, and loses what is shifted out. -/
theorem value_shift (right : Bool) (distance : Nat) (word : Word) :
    (word.shift right false distance).value =
      if right then word.value / 2 ^ distance else word.value * 2 ^ distance % 2 ^ word.length := by
  rcases Nat.le_total distance word.length with inside | out
  · cases right with
    | true =>
      rw [shift_right inside, value_append, value_zeros, value_drop inside, Nat.mul_zero,
        Nat.add_zero, if_pos rfl]
    | false =>
      have power : 2 ^ word.length = 2 ^ distance * 2 ^ (word.length - distance) := by
        rw [← Nat.pow_add, Nat.add_sub_cancel' inside]
      rw [shift_left inside, value_append, value_zeros, List.length_replicate,
        value_take (Nat.sub_le _ _), Nat.zero_add, if_neg Bool.false_ne_true, power,
        Nat.mul_comm word.value, Nat.mul_mod_mul_left]
  · rw [shift_out right out, value_zeros]
    cases right with
    | true =>
      have low := Nat.lt_of_lt_of_le (value_lt word) (Nat.pow_le_pow_right Nat.two_pos out)
      rw [if_pos rfl, Nat.div_eq_of_lt low]
    | false =>
      have multiple : 2 ^ word.length ∣ word.value * 2 ^ distance :=
        Nat.dvd_mul_left_of_dvd (Nat.pow_dvd_pow 2 out) word.value
      rw [if_neg Bool.false_ne_true, Nat.mod_eq_zero_of_dvd multiple]

end Word

/-- The number of a row of levels, from a place on, gathered in a machine word of sixty-four bits.
Where a level beyond them is high, the largest number stands for all that do not fit. -/
def Level.gather : List Level → Nat → BitVec 64 → BitVec 64
  | [], _, sum => sum
  | level :: rest, place, sum =>
      if level = .one then
        if 64 ≤ place then .allOnes 64 else gather rest (place + 1) (sum ||| (1 : BitVec 64) <<< place)
      else gather rest (place + 1) sum

def Bits.gathered (bits : Bits) : BitVec 64 := Level.gather bits.levels 0 0

theorem Level.toNat_gather {levels : List Level} {value : Nat}
    (known : Level.value? levels = some value) (place : Nat) {sum : BitVec 64}
    (low : sum.toNat < 2 ^ place) :
    (gather levels place sum).toNat = min (sum.toNat + 2 ^ place * value) (2 ^ 64 - 1) := by
  induction levels generalizing value place sum with
  | nil =>
    cases known
    have bound := sum.isLt
    rw [gather]
    omega
  | cons level rest ih =>
    have double : 2 ^ (place + 1) = 2 ^ place * 2 := Nat.pow_succ _ _
    cases level with
    | zero =>
      obtain ⟨half, knownRest, rfl⟩ := Option.map_eq_some_iff.mp known
      rw [gather, if_neg nofun, ih knownRest (place + 1) (by omega), double, Nat.mul_assoc]
    | one =>
      obtain ⟨half, knownRest, rfl⟩ := Option.map_eq_some_iff.mp known
      rw [gather, if_pos rfl]
      split
      · rename_i beyond
        have large : 2 ^ 64 ≤ 2 ^ place := Nat.pow_le_pow_right (by decide) beyond
        have more : 2 ^ place ≤ 2 ^ place * (2 * half + 1) := Nat.le_mul_of_pos_right _ (by omega)
        rw [BitVec.toNat_allOnes]
        omega
      · rename_i inside
        have added := Machine.toNat_setBit low (Nat.lt_of_not_le inside)
        rw [ih knownRest (place + 1) (by omega), added, double, Nat.mul_add, Nat.mul_one,
          Nat.mul_assoc, Nat.add_assoc, Nat.add_comm (2 ^ place)]
    | unknown => cases known
    | floating => cases known

/-- What is decided about a distance in sixty-four bits is right, and what is counted in thirty-two
loses nothing. -/
structure Bits.Decides (bits : Bits) (distance width : Nat) : Prop where
  none : bits.gathered = 0 ↔ distance = 0
  all : width ≤ bits.gathered.toNat ↔ width ≤ distance
  low : distance < width → (bits.gathered.setWidth 32).toNat = distance
  kept : distance < width →
    (BitVec.ofNat 32 width - bits.gathered.setWidth 32).toNat = width - distance

theorem Bits.gathered_decides {bits : Bits} {distance width : Nat}
    (known : bits.value? = some distance) (narrow : width < 2 ^ 32) :
    bits.Decides distance width := by
  have gathered : bits.gathered.toNat = min distance (2 ^ 64 - 1) := by
    rw [Bits.gathered, Level.toNat_gather known 0 (by decide)]
    simp
  have low (inside : distance < width) : (bits.gathered.setWidth 32).toNat = distance := by
    rw [BitVec.toNat_setWidth, gathered]
    omega
  constructor
  · rw [← BitVec.toNat_inj, gathered]
    change min distance (2 ^ 64 - 1) = 0 ↔ distance = 0
    omega
  · rw [gathered]
    omega
  · exact low
  · intro inside
    rw [BitVec.toNat_sub, low inside, BitVec.toNat_ofNat]
    omega

/-- The devices of a shift that keeps some of the bits. -/
def Rule.shiftKinds (width distance : Nat) (right : Bool) : List DeviceKind :=
  [.constant (.zeros distance),
    .partSelect (width - distance) width (.fixed (if right then distance else 0)),
    .concat width 2]

/-- What a shift of a net by a known distance comes to: the net itself, zeros alone, or the bits that
stay beside zeros. In each case it is the number on the net times or divided by a power of two. -/
structure Design.ShiftsBy (before after : Design) (node : Node) (right : Bool) (distance : Nat)
    (id out : NetId) : Prop where
  none : distance = 0 → out = id ∧ after = before
  all : 0 < distance → node.width ≤ distance →
    before.Makes after [.constant (.zeros node.width)] out (.vector node.width node.signed)
  some : 0 < distance → distance < node.width →
    before.Makes after (Rule.shiftKinds node.width distance right) out
      (.vector node.width node.signed)
  delivers : ∀ words : Valuation, (words id).length = node.width →
    (before.evaluate after words out).length = node.width ∧
    (before.evaluate after words out).value =
      if right then (words id).value / 2 ^ distance
      else (words id).value * 2 ^ distance % 2 ^ node.width

theorem Design.ShiftsBy.of_shift {before after : Design} {node : Node} {right : Bool}
    {distance : Nat} {id out : NetId}
    (none : distance = 0 → out = id ∧ after = before)
    (all : 0 < distance → node.width ≤ distance →
      before.Makes after [.constant (.zeros node.width)] out (.vector node.width node.signed))
    (some : 0 < distance → distance < node.width →
      before.Makes after (Rule.shiftKinds node.width distance right) out
        (.vector node.width node.signed))
    (shifts : ∀ words : Valuation, (words id).length = node.width →
      before.evaluate after words out = Word.shift right false distance (words id)) :
    before.ShiftsBy after node right distance id out where
  none := none
  all := all
  some := some
  delivers := by
    intro words length
    rw [shifts words length, Word.length_shift, Word.value_shift, length]
    exact ⟨rfl, rfl⟩

namespace Build

open Design

variable {design : Design} {id : NetId} {vector : Net} {node : Node} {distance : Nat}

theorem ends_shiftBy_inside (op : Shift) (known : design.net? id = some vector)
    (bits : vector.domain ≠ .real) (place : (design.scope? vector.scope).isSome)
    (width : vector.width = node.width) (some : 0 < distance) (inside : distance < node.width) :
    (Rule.shiftBy node op distance id vector).Ends design (fun out after =>
      design.Makes after (Rule.shiftKinds node.width distance op.isRight) out
        (.vector node.width node.signed) ∧
      ∀ words : Valuation, (words id).length = node.width →
        design.evaluate after words out = Word.shift op.isRight false distance (words id))
      fun _ => False := by
  have carries : design.Carries id vector.toValueType :=
    ⟨⟨vector, known, rfl, place⟩, fun real => absurd real bits⟩
  rw [Rule.shiftBy, if_neg (Nat.ne_of_gt some), if_neg (Nat.not_le.mpr inside)]
  rw [← width] at inside ⊢
  generalize op.isRight = right
  simp only [ends_bind]
  apply (ends_constant (Valued.definite_zeros distance) place false node.span).mono
  rintro zeros mid₁ ⟨makes₁, onZeros⟩
  refine Ends.mono (ends_part (carries.grows makes₁.grows) _ (by simp [ValueType.vector])
    node.span (makes₁.grows.scope place)) ?_
  rintro part mid₂ ⟨makes₂, onPart⟩
  have both := makes₁.toAdds.trans makes₂.toAdds
  have onZeros₂ := makes₁.carries.grows makes₂.grows
  -- The part reads the vector as it was, and leaves the zeros as they are.
  have readPart (words : Valuation) : design.evaluate mid₂ words part =
      ((words id).drop (if right then distance else 0)).take (vector.width - distance) := by
    rw [evaluate_trans makes₁.grows makes₂.grows, onPart, makes₁.keeps words id carries.isSome]
    rfl
  have readZeros (words : Valuation) :
      design.evaluate mid₂ words zeros = List.replicate distance false := by
    rw [evaluate_trans makes₁.grows makes₂.grows, makes₂.keeps _ zeros makes₁.carries.isSome,
      onZeros, Valued.ofBits_zeros]
  cases right with
  | true =>
    refine Ends.mono (ends_join makes₂.carries onZeros₂ ?_ (by simp [ValueType.vector]) node.span
      (both.grows.scope place)) ?_
    · exact Nat.sub_add_cancel (Nat.le_of_lt inside)
    rintro out after ⟨makes₃, onOut⟩
    constructor
    · exact both.makes makes₃
    · intro words length
      rw [evaluate_trans both.grows makes₃.grows, onOut, readPart, readZeros,
        Word.shift_right (by omega), if_pos rfl, List.take_of_length_le (by simp [length])]
  | false =>
    refine Ends.mono (ends_join onZeros₂ makes₂.carries ?_ (by simp [ValueType.vector]) node.span
      (both.grows.scope place)) ?_
    · exact Nat.add_sub_cancel' (Nat.le_of_lt inside)
    rintro out after ⟨makes₃, onOut⟩
    constructor
    · exact both.makes makes₃
    · intro words length
      rw [evaluate_trans both.grows makes₃.grows, onOut, readPart, readZeros,
        Word.shift_left (by omega)]
      simp [length]

theorem ends_shiftBy (op : Shift) (distance : Nat) (known : design.net? id = some vector)
    (bits : vector.domain ≠ .real) (place : (design.scope? vector.scope).isSome)
    (width : vector.width = node.width) : (Rule.shiftBy node op distance id vector).Ends design
      (fun out after => design.ShiftsBy after node op.isRight distance id out) fun _ => False := by
  rcases Nat.eq_zero_or_pos distance with rfl | some
  · rw [Rule.shiftBy, if_pos rfl, ends_pure]
    apply ShiftsBy.of_shift (fun _ => ⟨rfl, rfl⟩) (by omega) (by omega)
    intro words length
    rw [evaluate_self, Word.shift_zero]
  rcases Nat.lt_or_ge distance node.width with inside | out
  · apply (ends_shiftBy_inside op known bits place width some inside).mono
    rintro out after ⟨makes, shifts⟩
    exact .of_shift (by omega) (by omega) (fun _ _ => makes) shifts
  · rw [Rule.shiftBy, if_neg (Nat.ne_of_gt some), if_pos out]
    apply (ends_constant (Valued.definite_zeros node.width) place node.signed node.span).mono
    rintro id' after ⟨makes, zeros⟩
    apply ShiftsBy.of_shift (by omega) (fun _ _ => makes) (by omega)
    intro words length
    rw [zeros, Valued.ofBits_zeros, Word.shift_out _ (length ▸ out), length]

end Build

theorem Rule.runOn_shift_fixed {design mid : Design} {node : Node} {op : Shift} {left amount : Expr}
    {attempt : Attempt NetId} {id : NetId} {vector : Net} {distance : Nat}
    (built : attempt.run.runOn design = (.ok (some id), mid)) (known : mid.net? id = some vector)
    (bits : vector.domain ≠ .real) (width : vector.width = node.width)
    (fixed : fixedAmount? node op amount = some distance) (other : Attempt NetId) :
    (shift node op ⟨left, attempt⟩ ⟨amount, other⟩).run.runOn design =
      (liftM (shiftBy node op distance id vector) : Attempt NetId).run.runOn mid := by
  have vectorBits : ¬vector.domain.isReal = true := by simpa [Domain.isReal] using bits
  rw [shift, Attempt.run_bind, built]
  dsimp only
  rw [Attempt.run_bind, Attempt.run_liftM, Build.runOn_net known]
  dsimp only
  rw [if_neg vectorBits, if_neg (not_not.mpr width), fixed]

/-- A vector is shifted by a constant of any width. The shift adds what its distance asks for and
never looks at how the amount would be built, and the net that it returns carries the number on the
vector times or divided by the power of two. Deciding in machine words comes to the same. -/
theorem constant_shifts_correct {design mid : Design} (settings : SynthesisSettings) (node : Node)
    (op : Shift) {left : Expr} {l : NetId}
    (built : (synthesize settings left).runOn design = (.ok (some l), mid)) {vector : Net}
    (known : mid.net? l = some vector) (bits : vector.domain ≠ .real)
    (place : (mid.scope? vector.scope).isSome) (width : vector.width = node.width)
    (unsigned : ¬(op = .arithmeticRight ∧ node.signed = true)) (constantNode : Node) {value : Bits}
    {distance : Nat} (amount : value.value? = some distance) :
    ∃ out after,
      (synthesize settings (.binary node (.shift op) left (.constant constantNode value))).runOn
        design = (.ok (some out), after) ∧
      (∀ other : Attempt NetId, (Rule.shift node op ⟨left, left.build settings.generation⟩
        ⟨.constant constantNode value, other⟩).run.runOn design = (.ok (some out), after)) ∧
      mid.ShiftsBy after node op.isRight distance l out ∧
      (node.width < 2 ^ 32 → value.Decides distance node.width) := by
  obtain ⟨out, after, ran, shifts⟩ := (Build.ends_shiftBy op distance known bits place width).succeeds
  have fixed : Rule.fixedAmount? node op (.constant constantNode value) = some distance := by
    rw [Rule.fixedAmount?, if_neg (by simpa using unsigned)]
    exact amount
  have every (other : Attempt NetId) :
      (Rule.shift node op ⟨left, left.build settings.generation⟩
        ⟨.constant constantNode value, other⟩).run.runOn design = (.ok (some out), after) := by
    rw [Rule.runOn_shift_fixed built known bits width fixed other, Attempt.run_liftM, ran]
  refine ⟨out, after, ?_, every, shifts, Bits.gathered_decides amount⟩
  rw [synthesize, Expr.build]
  exact every _

/-- A constant whose one high bit lies beyond sixty-four leaves zeros alone. -/
theorem constant_shifts_correct_beyond :
    let design := Design.reached "top" [.addSignal .root "a" (.vector 4 false) .nowhere]
    let node : Node := ⟨.vector 4 false, .nowhere⟩
    let a := Expr.signal node ⟨0⟩
    let amount := Expr.constant ⟨.vector 70 false, .nowhere⟩ ((Bits.zeros 70).withLevel 66 .one)
    ∃ out after, (synthesize {} (.binary node (.shift .left) a amount)).runOn design =
      (.ok (some out), after) ∧ design.Makes after [.constant (.zeros 4)] out (.vector 4 false) := by
  intro design node a amount
  have built : (synthesize {} a).runOn design = (.ok (some ⟨0⟩), design) := rfl
  have large : ((Bits.zeros 70).withLevel 66 .one).value? = some (2 ^ 66) := by decide +kernel
  obtain ⟨out, after, ran, _, shifts, _⟩ := constant_shifts_correct {} node .left built rfl nofun rfl
    rfl nofun ⟨.vector 70 false, .nowhere⟩ large
  exact ⟨out, after, ran, shifts.all (by decide) (by decide)⟩

end NetSynth
