import NetSynth.Netlist.Design

/-!
Nets that carry a constant, and nets brought to another width. The new net stands in the scope of
the given one, takes its domain, and nothing is built for a net that fits already.
-/

namespace NetSynth.Build

def constant (scope : ScopeId) (value : Bits) (signed : Bool) (span : Span) : Build NetId :=
  drive scope (.vector value.width signed) span fun out =>
    return (.constant value, [⟨.output, out⟩])

def literal (value : Float) (span : Span) : Build NetId :=
  drive .root ⟨1, .real, false⟩ span fun out => return (.literal value, [⟨.output, out⟩])

/-- A net widened by copies of its top bit, or by zeros, and with that sign from then on. -/
def extend (id : NetId) (width : Nat) (signed : Bool) (span : Span) : Build NetId := do
  let source ← net id
  if source.width ≥ width then
    fail (.narrowExtension id source.width width)
  else
    drive source.scope ⟨width, source.domain, signed⟩ span fun out =>
      if signed then
        return (.signExtend width source.width, [⟨.input 0, id⟩, ⟨.output, out⟩])
      else do
        let padding ← constant source.scope (.zeros (width - source.width)) false span
        return (.concat width 2, [⟨.output, out⟩, ⟨.input 0, id⟩, ⟨.input 1, padding⟩])

/-- A net of at least the given width, extended by its own sign. Real nets stay as they are. -/
def pad (id : NetId) (width : Nat) (span : Span) : Build NetId := do
  let source ← net id
  if source.domain.isReal || source.width ≥ width then
    return id
  else
    extend id width source.signed span

def crop (id : NetId) (width : Nat) (span : Span) : Build NetId := do
  let source ← net id
  if source.width ≤ width then
    return id
  else
    drive source.scope { source.toValueType with width } span fun out =>
      return (.partSelect width source.width (.fixed 0), [⟨.vector, id⟩, ⟨.part, out⟩])

/-- A net of exactly the given width; a real net keeps its own. -/
def fit (id : NetId) (width : Nat) (span : Span) : Build NetId := do
  crop (← pad id width span) width span

end NetSynth.Build
