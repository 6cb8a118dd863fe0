import TensorLoops.Offset

namespace TensorLoops

/-- The product of a list of extents, as far as it can be told. -/
inductive Product where
  | exact (n : Nat)
  /-- A dynamic extent was met first. -/
  | unknown
  /-- A factor or a running product of `2 ^ 63` or more was met first. -/
  | overflow
  deriving DecidableEq, Repr

/-- The product of `extents` and of what has been multiplied so far. It has to stay below `2 ^ 63`
all the way. -/
def runningProduct (sofar : Nat) : List Extent → Product
  | [] => .exact sofar
  | .dynamic :: _ => .unknown
  | .known n :: rest =>
    if n.toNat < 0x8000000000000000 ∧ sofar * n.toNat < 0x8000000000000000 then
      runningProduct (sofar * n.toNat) rest
    else .overflow

/-- The number of elements between two consecutive positions along `axis`. -/
def strideAfter (axis : Nat) (shape : List Extent) : Offset :=
  match runningProduct 1 (shape.drop (axis + 1)) with
  | .exact n => .ofInt n
  | .unknown | .overflow => .dynamic

/-- Whether the stride of `axis` is dynamic because it is too large. -/
def strideOverflows (axis : Nat) (shape : List Extent) : Bool :=
  runningProduct 1 (shape.drop (axis + 1)) == .overflow

theorem strideAfter_last (axis : Nat) (shape : List Extent) (h : shape.length ≤ axis + 1) :
    strideAfter axis shape = .known 1 := by
  simp [strideAfter, List.drop_of_length_le h, runningProduct, Offset.ofInt, Offset.InRange]

end TensorLoops
