/-!
Identifiers of the objects in a netlist. Each kind of object is numbered from zero in the order of
creation.
-/

namespace NetSynth

structure NetId where
  index : Nat
  deriving DecidableEq

structure DeviceId where
  index : Nat
  deriving DecidableEq

structure ScopeId where
  index : Nat
  deriving DecidableEq

structure FunctionId where
  index : Nat
  deriving DecidableEq

def NetId.text (id : NetId) : String := s!"n{id.index}"

def DeviceId.text (id : DeviceId) : String := s!"d{id.index}"

def ScopeId.text (id : ScopeId) : String := s!"s{id.index}"

def FunctionId.text (id : FunctionId) : String := s!"f{id.index}"

/-- The outermost scope, which every design has. -/
def ScopeId.root : ScopeId := ⟨0⟩

end NetSynth
