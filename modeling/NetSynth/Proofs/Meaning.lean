import NetSynth.Proofs.Discipline
import NetSynth.Proofs.Word

/-! What devices and expressions over bit vectors mean: the word that a device puts on its output,
and the word that an expression stands for, apart from how it is built. -/
namespace NetSynth

abbrev Valuation := NetId → Word

def NetRef.read (words : Valuation) : NetRef → Word
  | .whole id => words id
  | .bit id index => [(words id).getD index false]

/-- The word that a pin sees. -/
def pinWord (words : Valuation) (connections : List Connection) (pin : PinName) : Word :=
  match connections.find? (·.pin == pin) with
  | some connection => connection.ref.read words
  | none => []

def Direction.compute : Direction → Int → Int → Int
  | .add, left, right => left + right
  | .sub, left, right => left - right

def Relation.decides : Relation → Int → Int → Bool
  | .greater, left, right => left > right
  | .greaterEqual, left, right => left ≥ right
  | .equal, left, right => left = right
  | .notEqual, left, right => left ≠ right
  | .less, left, right => left < right
  | .lessEqual, left, right => left ≤ right

/-- What a gate makes of the bits in one position of its inputs. -/
def Gate.fold : Gate → List Bool → Bool
  | .and, bits => bits.all id
  | .nand, bits => !bits.all id
  | .or, bits => bits.any id
  | .nor, bits => !bits.any id
  | .xor, bits => bits.foldr Bool.xor false
  | .xnor, bits => !bits.foldr Bool.xor false
  | .not, bits => !bits.headD false

def Reduction.gate : Reduction → Gate
  | .and => .and
  | .or => .or
  | .xor => .xor
  | .nand => .nand
  | .nor => .nor
  | .xnor => .xnor

/-- Sums of extended words have the low bits of the sums of the numbers that the words stand for. -/
theorem Word.ofInt_compute (op : Direction) (signedL signedR : Bool) {left right : Word}
    {width : Nat} (narrowL : left.length ≤ width) (narrowR : right.length ≤ width) :
    ofInt width (op.compute (value (extend signedL width left))
        (value (extend signedR width right))) =
      ofInt width (op.compute (toInt signedL left) (toInt signedR right)) := by
  rw [value_extend narrowL, value_extend narrowR]
  generalize (if (signedL && left.top) = true then (1 : Int) else 0) = carryL
  generalize (if (signedR && right.top) = true then (1 : Int) else 0) = carryR
  generalize toInt signedL left = l, toInt signedR right = r
  cases op with
  | add =>
    have grouped : l + 2 ^ width * carryL + (r + 2 ^ width * carryR) =
        l + r + 2 ^ width * (carryL + carryR) := by
      rw [Int.mul_add]
      omega
    rw [Direction.compute, grouped, ofInt_add_mul]
    rfl
  | sub =>
    have grouped : l + 2 ^ width * carryL - (r + 2 ^ width * carryR) =
        l - r + 2 ^ width * (carryL - carryR) := by
      rw [Int.mul_sub]
      omega
    rw [Direction.compute, grouped, ofInt_add_mul]
    rfl

/-- The word that a device of the kind puts on its output, from the words on its pins. Kinds for
which no meaning over two values is given here have none. -/
def DeviceKind.compute? (pin : PinName → Word) : DeviceKind → Option Word
  | .addSub op width => some (.ofInt width (op.compute (pin .dataA).value (pin .dataB).value))
  | .compare relation _ signed =>
      some [relation.decides ((pin .dataA).toInt signed) ((pin .dataB).toInt signed)]
  | .logic gate width inputs =>
      some ((List.range width).map fun index =>
        gate.fold ((List.range inputs).map fun input => (pin (.input input)).getD index false))
  | .reduce mode _ => some [mode.gate.fold (pin (.input 0))]
  | .mux _ size _ =>
      let chosen := (pin .select).value
      if chosen < size then some (pin (.data chosen)) else none
  | .concat _ inputs => some ((List.range inputs).flatMap fun input => pin (.input input))
  | .partSelect width _ (.fixed offset) => some (((pin .vector).drop offset).take width)
  | .signExtend width _ => some ((pin (.input 0)).extend true width)
  | .constant value => if value.isDefinite then some (.ofBits value) else none
  | _ => none

/-- The word that a device puts on its output, if the meaning covers its kind. -/
abbrev DeviceMeaning := (PinName → Word) → DeviceKind → Option Word

/-- A device puts its word on the net of its output. -/
def Device.settleBy (meaning : DeviceMeaning) (words : Valuation) (device : Device) : Valuation :=
  let outputs : List NetRef :=
    (device.connections.filter (·.pin.direction == .output)).map (·.ref)
  match outputs, meaning (pinWord words device.connections) device.kind with
  | [.whole out], some word => fun id => if id = out then word else words id
  | _, _ => words

/-- The words on all nets after the devices that were made since were evaluated in the order of
their creation. -/
def Design.evaluateBy (meaning : DeviceMeaning) (before after : Design) (words : Valuation) :
    Valuation :=
  (before.newDevices after).foldl (Device.settleBy meaning) words

def Design.evaluate (before after : Design) (words : Valuation) : Valuation :=
  before.evaluateBy DeviceKind.compute? after words

/-- Every net carries a word of its width. -/
def Design.Sizes (design : Design) (words : Valuation) : Prop :=
  ∀ ⦃id net⦄, design.net? id = some net → (words id).length = net.width

theorem Design.sizes_iff {design : Design} {words : Valuation} : design.Sizes words ↔
    ∀ place : Fin design.nets.size, (words ⟨place⟩).length = design.nets[place].width := by
  constructor
  · exact fun sized place => sized (Array.getElem?_eq_getElem place.isLt)
  · intro each id net known
    obtain ⟨inside, rfl⟩ := Array.getElem?_eq_some_iff.mp known
    exact each ⟨id.index, inside⟩

instance (design : Design) (words : Valuation) : Decidable (design.Sizes words) :=
  decidable_of_iff _ Design.sizes_iff.symm

theorem pinWord_cons_of_ne {pin : PinName} {connection : Connection} {rest : List Connection}
    (words : Valuation) (other : connection.pin ≠ pin) :
    pinWord words (connection :: rest) pin = pinWord words rest pin := by
  simp [pinWord, other]

theorem pinWord_mapIdx (words : Valuation) (pin : Nat → PinName) (inputs : List NetRef)
    (distinct : ∀ i j, pin i = pin j → i = j) :
    (List.range inputs.length).map (fun index =>
        pinWord words (inputs.mapIdx fun index ref => ⟨pin index, ref⟩) (pin index)) =
      inputs.map (·.read words) := by
  refine List.ext_getElem (by simp) fun index inside inside' => ?_
  simp only [List.length_map] at inside'
  have found : (inputs.mapIdx fun index ref => (⟨pin index, ref⟩ : Connection)).find?
      (·.pin == pin index) = some ⟨pin index, inputs[index]⟩ := by
    rw [List.find?_eq_some_iff_getElem]
    refine ⟨by simp, index, by simpa using inside', by simp, fun other less => ?_⟩
    simp only [List.getElem_mapIdx, Bool.not_eq_true', beq_eq_false_iff_ne]
    exact fun same => absurd (distinct _ _ same) (Nat.ne_of_lt less)
  simp [pinWord, found]

theorem pinWord_gatePins (words : Valuation) (out : NetId) (inputs : List NetRef) :
    (List.range inputs.length).map (fun index =>
        pinWord words (Rule.gatePins out inputs) (.input index)) = inputs.map (·.read words) := by
  rw [← pinWord_mapIdx words .input inputs fun _ _ same => PinName.input.inj same]
  refine List.map_congr_left fun index _ => ?_
  exact pinWord_cons_of_ne words (by simp)

theorem map_getD_range {word : Word} {width : Nat} (length : word.length = width) :
    (List.range width).map (fun index => word.getD index false) = word := by
  subst length
  refine List.ext_getElem (by simp) fun index inside inside' => ?_
  simp [List.getElem?_eq_getElem inside']

def UnaryOp.compute : UnaryOp → Word → Word
  | .invert, word => word.map (!·)
  | .negate, word => .ofInt word.length (-word.value)
  | .reduce mode, word => [mode.gate.fold word]
  | .logicalNot, word => [!word.truth]

/-- What a binary operator makes of two words, each read with its own sign. Only operators that the
meaning of devices covers have a word. -/
def BinaryOp.compute (width : Nat) (signedLeft signedRight : Bool) (left right : Word) :
    BinaryOp → Word
  | .sum op => .ofInt width (op.compute (left.toInt signedLeft) (right.toInt signedRight))
  | .bitwise op => List.zipWith (fun a b => op.gate.fold [a, b]) left right
  | .compare op => [op.relation.decides (left.toInt signedLeft) (right.toInt signedRight)]
  | .logical .and => [left.truth && right.truth]
  | .logical .or => [left.truth || right.truth]
  | .arithmetic _ | .shift _ => []

namespace Expr

def namedWord? (design : Design) (memory : NetId) (index : Expr) : Option NetId := do
  let words ← (← design.net? memory).memory
  let value ← index.constant?
  words.word? (← value.toInt? index.signed)

mutual

/-- The word that an expression stands for. Sums and comparisons are those of integers, a vector
is brought to another width as the integer that it writes, and the rightmost part of a
concatenation is the least significant. -/
def value (design : Design) (words : Valuation) : Expr → Word
  | constant _ bits => .ofBits bits
  | unary _ op operand => op.compute (value design words operand)
  | binary node op left right =>
      op.compute node.width left.signed right.signed (value design words left)
        (value design words right)
  | concat _ parts repeats =>
      (List.replicate repeats (values design words parts).reverse.flatten).flatten
  | resize node operand => .ofInt node.width ((value design words operand).toInt node.signed)
  | partSelect node vector base =>
      let offset := (base.constant?.bind (·.toInt? base.signed)).getD 0
      ((value design words vector).drop offset.toNat).take node.width
  | conditional node condition whenTrue whenFalse =>
      if (value design words condition).truth then
        .ofInt node.width ((value design words whenTrue).toInt whenTrue.signed)
      else .ofInt node.width ((value design words whenFalse).toInt whenFalse.signed)
  | signal _ net => words net
  | word _ memory index => ((namedWord? design memory index).map words).getD []
  | real .. | systemCall .. | call .. | parameter .. | scopeRef .. | event .. => []

def values (design : Design) (words : Valuation) : List Expr → List Word
  | [] => []
  | first :: rest => value design words first :: values design words rest

end

theorem values_eq_map (design : Design) (words : Valuation) (parts : List Expr) :
    values design words parts = parts.map (value design words) := by
  induction parts with
  | nil => simp [values]
  | cons first rest ih => simp [values, ih]

/-- Expressions over bit vectors that the meaning of devices covers. The declared sign matters
where a vector is widened, and elsewhere a node hands on the sign of its operand. -/
inductive TwoValued : Expr → Prop
  | constant {node : Node} {bits : Bits} (definite : bits.isDefinite = true) :
      TwoValued (constant node bits)
  | signal {node : Node} {id : NetId} (logic : node.domain = .logic) : TwoValued (signal node id)
  | word {node indexNode : Node} {memory : NetId} {bits : Bits}
      (definite : bits.isDefinite = true) : TwoValued (word node memory (constant indexNode bits))
  | sum {node : Node} {op : Direction} {left right : Expr} (onLeft : TwoValued left)
      (onRight : TwoValued right) : TwoValued (binary node (.sum op) left right)
  | bitwise {node : Node} {op : Bitwise} {left right : Expr} (onLeft : TwoValued left)
      (onRight : TwoValued right) : TwoValued (binary node (.bitwise op) left right)
  | compare {node : Node} {op : Comparison} {left right : Expr} (onLeft : TwoValued left)
      (onRight : TwoValued right) (signs : left.signed = right.signed) :
      TwoValued (binary node (.compare op) left right)
  | logical {node : Node} {op : Logical} {left right : Expr} (onLeft : TwoValued left)
      (onRight : TwoValued right) : TwoValued (binary node (.logical op) left right)
  | invert {node : Node} {operand : Expr} (onOperand : TwoValued operand) :
      TwoValued (unary node .invert operand)
  | reduce {node : Node} {mode : Reduction} {operand : Expr} (onOperand : TwoValued operand)
      (structural : mode ≠ .nand) : TwoValued (unary node (.reduce mode) operand)
  | logicalNot {node : Node} {operand : Expr} (onOperand : TwoValued operand) :
      TwoValued (unary node .logicalNot operand)
  | concat {node : Node} {parts : List Expr} {repeats : Nat}
      (onParts : ∀ part ∈ parts, TwoValued part) : TwoValued (concat node parts repeats)
  | resize {node : Node} {operand : Expr} (onOperand : TwoValued operand)
      (sign : operand.node.width < node.width ∨ node.signed = operand.signed) :
      TwoValued (resize node operand)
  | partSelect {node baseNode : Node} {vector : Expr} {bits : Bits} {offset : Int}
      (onVector : TwoValued vector) (fixed : bits.toInt? baseNode.signed = some offset)
      (inside : 0 ≤ offset ∧ offset + node.width ≤ vector.node.width) :
      TwoValued (partSelect node vector (constant baseNode bits))
  | conditional {node : Node} {condition whenTrue whenFalse : Expr}
      (onCondition : TwoValued condition) (onTrue : TwoValued whenTrue)
      (onFalse : TwoValued whenFalse) : TwoValued (conditional node condition whenTrue whenFalse)

end Expr
end NetSynth
