import NetSynth.Logic.Bits
import NetSynth.Netlist.Net

/-!
The catalogue of devices. A kind fixes the pins of a device and their order, the width of each pin,
which pins carry one common domain, and whether a real net may touch the device at all.
-/

namespace NetSynth

/-- Where a part-select starts: at a fixed bit, or at the bit that its base pin tells. -/
inductive PartBase where
  | fixed (offset : Nat)
  | dynamic (width : Nat)
  deriving DecidableEq

/-- The kinds of device. Unless a pin has a width of its own, `width` is the width of all pins that
carry the value. -/
inductive DeviceKind where
  -- Sums and differences are taken modulo `2 ^ width`.
  | addSub (direction : Direction) (width : Nat)
  | arithmetic (op : Arithmetic) (width widthA widthB : Nat) (signed : Bool)
  | compare (relation : Relation) (width : Nat) (signed : Bool)
  | logic (gate : Gate) (width inputs : Nat)
  | reduce (mode : Reduction) (inputWidth : Nat)
  -- A signed shift to the right repeats the sign, any other fills with zeros.
  | shift (width distanceWidth : Nat) (right signed : Bool)
  | mux (width size selectWidth : Nat)
  -- The first input is the least significant.
  | concat (width inputs : Nat)
  | partSelect (width vectorWidth : Nat) (base : PartBase)
  | signExtend (width inputWidth : Nat)
  | memoryRead (memory : NetId) (words width addressWidth : Nat)
  | call (function : FunctionId) (resultWidth : Nat) (argumentWidths : List Nat)
  | constant (value : Bits)
  | literal (value : Float)

namespace DeviceKind

def pins : DeviceKind → List PinName
  | .addSub .. | .arithmetic .. => [.dataA, .dataB, .result]
  | .compare relation .. => [.dataA, .dataB, .related relation]
  | .logic _ _ inputs | .concat _ inputs => .output :: (List.range inputs).map .input
  | .reduce .. | .signExtend .. => [.input 0, .output]
  | .shift .. => [.data 0, .distance, .result]
  | .mux _ size _ => .select :: (List.range size).map .data ++ [.result]
  | .partSelect _ _ (.fixed _) => [.vector, .part]
  | .partSelect _ _ (.dynamic _) => [.vector, .part, .base]
  | .memoryRead .. => [.address, .result]
  | .call _ _ argumentWidths => .result :: (List.range argumentWidths.length).map .argument
  | .constant _ | .literal _ => [.output]

/-- The width that a pin must see. The inputs of a concatenation have no width each, and pins of
other kinds have none at all. -/
def pinWidth? : DeviceKind → PinName → Option Nat
  | .addSub _ width, .dataA | .addSub _ width, .dataB | .addSub _ width, .result => some width
  | .arithmetic _ _ widthA _ _, .dataA => some widthA
  | .arithmetic _ _ _ widthB _, .dataB => some widthB
  | .arithmetic _ width _ _ _, .result => some width
  | .compare _ width _, .dataA | .compare _ width _, .dataB => some width
  | .compare relation _ _, .related shown => if shown = relation then some 1 else none
  | .logic _ width inputs, .input index => if index < inputs then some width else none
  | .logic _ width _, .output => some width
  | .reduce _ inputWidth, .input 0 => some inputWidth
  | .reduce _ _, .output => some 1
  | .shift width _ _ _, .data 0 | .shift width _ _ _, .result => some width
  | .shift _ distanceWidth _ _, .distance => some distanceWidth
  | .mux _ _ selectWidth, .select => some selectWidth
  | .mux width size _, .data index => if index < size then some width else none
  | .mux width _ _, .result => some width
  | .concat width _, .output => some width
  | .partSelect _ vectorWidth _, .vector => some vectorWidth
  | .partSelect width _ _, .part => some width
  | .partSelect _ _ (.dynamic baseWidth), .base => some baseWidth
  | .signExtend _ inputWidth, .input 0 => some inputWidth
  | .signExtend width _, .output => some width
  | .memoryRead _ _ _ addressWidth, .address => some addressWidth
  | .memoryRead _ _ width _, .result => some width
  | .call _ resultWidth _, .result => some resultWidth
  | .call _ _ argumentWidths, .argument index => argumentWidths[index]?
  | .constant value, .output => some value.width
  | .literal _, .output => some 1
  | _, _ => none

def direction (_ : DeviceKind) (pin : PinName) : PinDirection := pin.direction

/-- Kinds on which every pin carries a bit vector. -/
def isLogicOnly : DeviceKind → Bool
  | .logic .. | .reduce .. | .shift .. | .signExtend .. => true
  | _ => false

/-- The pins that must all see one domain. -/
def domainPins : DeviceKind → List PinName
  | .addSub .. => [.dataA, .dataB, .result]
  | .compare .. | .arithmetic .. => [.dataA, .dataB]
  | .mux _ size _ => (List.range size).map .data ++ [.result]
  | _ => []

def label : DeviceKind → String
  | .addSub .. => "addsub"
  | .arithmetic .mult .. => "mult"
  | .arithmetic .divide .. => "divide"
  | .arithmetic .modulo .. => "modulo"
  | .arithmetic .pow .. => "pow"
  | .compare .. => "compare"
  | .logic .. => "logic"
  | .reduce .. => "reduce"
  | .shift .. => "shift"
  | .mux .. => "mux"
  | .concat .. => "concat"
  | .partSelect .. => "partselect"
  | .signExtend .. => "sign-extend"
  | .memoryRead .. => "array-read"
  | .call .. => "ufunc"
  | .constant _ => "const"
  | .literal _ => "literal"

end DeviceKind

structure Connection where
  pin : PinName
  ref : NetRef
  deriving DecidableEq

/-- A pin of a device, which has its direction stored with it. -/
structure Pin extends Connection where
  direction : PinDirection
  deriving DecidableEq

def DeviceKind.connect (kind : DeviceKind) (connections : List Connection) : List Pin :=
  connections.map fun connection => { connection with direction := kind.direction connection.pin }

@[simp] theorem DeviceKind.map_connect (kind : DeviceKind) (connections : List Connection) :
    (kind.connect connections).map (·.toConnection) = connections := by
  simp [connect, Function.comp_def]

structure Device where
  id : DeviceId
  name : Name
  scope : ScopeId
  kind : DeviceKind
  pins : List Pin
  span : Span

namespace Device

def connections (device : Device) : List Connection := device.pins.map (·.toConnection)

@[simp] theorem connections_mk (id : DeviceId) (name : Name) (scope : ScopeId) (kind : DeviceKind)
    (pins : List Pin) (span : Span) :
    connections ⟨id, name, scope, kind, pins, span⟩ = pins.map (·.toConnection) := rfl

def pin? (device : Device) (pin : PinName) : Option NetRef :=
  (device.pins.find? (·.pin == pin)).map (·.ref)

def towards (device : Device) (direction : PinDirection) : List Pin :=
  device.pins.filter (·.direction == direction)

end Device

end NetSynth
