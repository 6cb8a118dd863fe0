import TensorLoops.Extent
import TensorLoops.Text.Integer

namespace TensorLoops

/-- A distance by which a pointer moves, counted in elements. A dynamic one is only known when the
kernel is called. -/
inductive Offset where
  | known (n : Int64)
  | dynamic
  deriving DecidableEq, Repr

namespace Offset

/-- The offset of a pointer that stays. -/
def zero : Offset := known 0

/-- A dynamic offset is written `?`. -/
def text : Offset → String
  | known n => Text.integer n.toInt
  | dynamic => "?"

/-- The integers that a known offset can hold: from `-2 ^ 63` up to, but not including, `2 ^ 63`. -/
def InRange (z : Int) : Prop := -0x8000000000000000 ≤ z ∧ z < 0x8000000000000000

instance (z : Int) : Decidable (InRange z) := inferInstanceAs (Decidable (_ ∧ _))

/-- Outside the 64-bit range an offset counts as dynamic. -/
def ofInt (z : Int) : Offset := if InRange z then known (Int64.ofInt z) else dynamic

/-- Whether `iterations`, `increment * iterations` and its negation are signed 64-bit numbers. -/
def CanRewind (increment : Int64) (iterations : UInt64) : Prop :=
  iterations.toNat < 0x8000000000000000 ∧ InRange (increment.toInt * iterations.toNat) ∧
    InRange (-(increment.toInt * iterations.toNat))

instance (increment : Int64) (iterations : UInt64) : Decidable (CanRewind increment iterations) :=
  inferInstanceAs (Decidable (_ ∧ _ ∧ _))

/-- The adjustment that takes a pointer back to its start after a loop has advanced it by
`increment` in each of `iterations` iterations. -/
def rewind : Offset → Extent → Offset
  | known increment, .known iterations =>
    if CanRewind increment iterations then
      ofInt (-(increment.toInt * iterations.toNat))
    else dynamic
  | _, _ => dynamic

@[simp] theorem rewind_dynamic_left (e : Extent) : rewind dynamic e = dynamic := rfl

@[simp] theorem rewind_dynamic_right (o : Offset) : rewind o .dynamic = dynamic := by
  cases o <;> rfl

theorem ofInt_of_inRange {z : Int} (h : InRange z) : ofInt z = known (Int64.ofInt z) := if_pos h

end Offset

end TensorLoops
