import NetSynth.Logic.BitsText
import NetSynth.Netlist.Device

/-!
Faults that well-formed input cannot have, such as a device with wrong pins or a sum that is narrower
than its operands. A fault is not a message to the user: it ends the request that met it, and is
shown as an internal error.
-/

namespace NetSynth

inductive Fault where
  | wideReal (name : String) (width : Nat)
  | unknownNet (net : NetId)
  | unknownScope (scope : ScopeId)
  | unknownFunction (function : FunctionId)
  | bitOutside (net : NetId) (index width : Nat)
  | wrongPins (kind : DeviceKind) (given : List PinName)
  | pinWidth (kind : DeviceKind) (pin : PinName) (required : Nat) (net : NetId) (width : Nat)
  | realPin (kind : DeviceKind) (pin : PinName) (net : NetId)
  | concatWidth (inputs output : Nat)
  | mixedDomains (kind : DeviceKind) (first : PinName) (expected : Domain) (pin : PinName)
      (given : Domain)
  | narrowExtension (net : NetId) (width target : Nat)
  | narrowSum (op : Direction) (width left right : Nat)
  | wideConjunction (left right : Nat)
  | shiftWidth (op : Shift) (value result : Nat)
  | wideCondition (net : NetId) (width : Nat)
  | emptyConcat
  | notMemory (net : NetId)
  | noWord (index : Bits) (memory : NetId)
  | argumentCount (function : String) (arguments ports : Nat)

def Fault.message : Fault → String
  | .wideReal name width => "real net '" ++ name ++ s!"' declared {width} bits wide"
  | .unknownNet net => s!"unknown net {net.text}"
  | .unknownScope scope => s!"unknown scope {scope.text}"
  | .unknownFunction function => s!"unknown function {function.text}"
  | .bitOutside net index width => s!"bit {index} of {net.text} is outside its {width} bits"
  | .wrongPins kind given =>
      s!"{kind.label} device expects pins {PinName.listText kind.pins}, " ++
        s!"got {PinName.listText given}"
  | .pinWidth kind pin required net width =>
      s!"{kind.label} pin {pin.text} is {required} bits but {net.text} is {width} bits"
  | .realPin kind pin net => s!"{kind.label} pin {pin.text} connected to real net {net.text}"
  | .concatWidth inputs output => s!"concat inputs add up to {inputs} bits, output is {output}"
  | .mixedDomains kind first expected pin given =>
      s!"{kind.label} pins {first.text} ({expected.text}) and {pin.text} ({given.text}) " ++
        "differ in domain"
  | .narrowExtension net width target =>
      s!"cannot extend {width}-bit {net.text} to {target} bits"
  | .narrowSum op width left right =>
      "`" ++ op.symbol ++ s!"` result is {width} bits, narrower than its operands " ++
        s!"({left} and {right} bits)"
  | .wideConjunction left right =>
      s!"`&&` operands must be reduced to one bit, got {left} and {right} bits"
  | .shiftWidth op value result =>
      "`" ++ op.symbol ++ s!"` shifts a {value}-bit value into a {result}-bit result"
  | .wideCondition net width => s!"ternary condition {net.text} is {width} bits wide"
  | .emptyConcat => "concatenation without operands"
  | .notMemory net => s!"word select on non-array {net.text}"
  | .noWord index memory => s!"index {index.text} is not a word of {memory.text}"
  | .argumentCount function arguments ports =>
      "call to `" ++ function ++ s!"` passes {arguments} arguments for {ports} ports"

def Fault.report (fault : Fault) : String := "internal compiler error: " ++ fault.message

/-- Why a request ended early: a fault in its input, or the use of a net or a name that does not
exist. -/
inductive Stop where
  | fault (fault : Fault)
  | missingNet (net : NetId)
  | missingName (name : Name)

end NetSynth
