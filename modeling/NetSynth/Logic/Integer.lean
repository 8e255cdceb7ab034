/-!
The range of integers that sixty-four bits hold.
-/

namespace NetSynth

/-- The integers from `-2 ^ 63` up to `2 ^ 63`, the upper end left out. -/
def FitsInt64 (value : Int) : Prop :=
  -0x8000000000000000 ≤ value ∧ value < 0x8000000000000000

instance (value : Int) : Decidable (FitsInt64 value) := by
  unfold FitsInt64
  infer_instance

end NetSynth
