/-!
Names are kept once each and referred to by their position.
-/

namespace NetSynth

/-- A name, as its position in the table that keeps it. -/
structure Name where
  index : Nat
  deriving DecidableEq

structure NameTable where
  texts : Array String := #[]

namespace NameTable

def size (table : NameTable) : Nat := table.texts.size

def find? (table : NameTable) (text : String) : Option Name := (table.texts.idxOf? text).map .mk

/-- A text seen before keeps its name, any other takes the next position. -/
def intern (table : NameTable) (text : String) : Name × NameTable :=
  match table.find? text with
  | some name => (name, table)
  | none => (⟨table.size⟩, ⟨table.texts.push text⟩)

def text? (table : NameTable) (name : Name) : Option String := table.texts[name.index]?

end NameTable

end NetSynth
