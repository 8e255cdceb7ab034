import NetSynth.Names
import NetSynth.Netlist.Id
import NetSynth.Netlist.Pin
import NetSynth.Source.Span

/-!
Nets, the memories that some of them name, and what a device pin connects to.
-/

namespace NetSynth

inductive Domain where
  | untyped
  | logic
  | real
  deriving DecidableEq

namespace Domain

def text : Domain → String
  | .untyped => "no type"
  | .logic => "logic"
  | .real => "real"

def isReal (domain : Domain) : Bool := domain == .real

end Domain

/-- The type of a value. A real value has width 1. -/
structure ValueType where
  width : Nat
  domain : Domain
  signed : Bool
  deriving DecidableEq

def ValueType.vector (width : Nat) (signed : Bool) : ValueType := ⟨width, .logic, signed⟩

def ValueType.bit : ValueType := .vector 1 false

/-- Whether the user declared a net or synthesis made it for an intermediate value. -/
inductive NetOrigin where
  | declared
  | implicit
  deriving DecidableEq

structure Endpoint where
  device : DeviceId
  pin : PinName
  deriving DecidableEq

/-- The words of a memory declared with the bounds `first` and `last`, in address order. -/
structure MemoryWords where
  first : Int
  last : Int
  words : Array NetId
  deriving DecidableEq

namespace MemoryWords

def indexes (first last : Int) : List Int :=
  (List.range ((last - first).natAbs + 1)).map fun (address : Nat) =>
    if first ≤ last then first + address else first - address

/-- Addresses count from `first` towards `last`. -/
def address? (memory : MemoryWords) (index : Int) : Option Nat :=
  let offset := if memory.first ≤ memory.last then index - memory.first else memory.first - index
  if 0 ≤ offset ∧ offset < memory.words.size then some offset.toNat else none

def word? (memory : MemoryWords) (index : Int) : Option NetId :=
  (memory.address? index).bind fun address => memory.words[address]?

end MemoryWords

/-- A wire between device pins. Local nets are hidden from the user, `endpoints` are in the order of
connection, and `memory` is there when the net names a memory. -/
structure Net extends ValueType where
  id : NetId
  name : Name
  scope : ScopeId
  origin : NetOrigin
  isLocal : Bool
  endpoints : Array Endpoint
  memory : Option MemoryWords
  span : Span
  deriving DecidableEq

/-- What a pin connects to: a whole net, or one bit of it where bit 0 is the least significant. -/
inductive NetRef where
  | whole (net : NetId)
  | bit (net : NetId) (index : Nat)
  deriving DecidableEq

def NetRef.net : NetRef → NetId
  | .whole net => net
  | .bit net _ => net

@[simp] theorem NetRef.net_whole (net : NetId) : (whole net).net = net := rfl

@[simp] theorem NetRef.net_bit (net : NetId) (index : Nat) : (bit net index).net = net := rfl

instance : Coe NetId NetRef := ⟨.whole⟩

end NetSynth
