import TensorLoops.Stride
import TensorLoops.Attempt

namespace TensorLoops

/-- The physical axis along which a loop moves, with the shape of the tensor. -/
structure Walk where
  shape : List Extent
  axis : Nat
  axis_lt : axis < shape.length

namespace Walk

def extent (w : Walk) : Extent := w.shape.get ⟨w.axis, w.axis_lt⟩

/-- Whether the walk goes along the innermost axis. -/
def isInnermost (w : Walk) : Bool := w.axis + 1 == w.shape.length

/-- How a step along the axis is measured. -/
inductive Step where
  /-- A dynamic innermost axis may turn out to be broadcast. -/
  | unknown
  /-- An axis of extent one is walked by a loop of more iterations: it is broadcast. -/
  | broadcast
  | strided
  deriving DecidableEq, Repr

def step (w : Walk) (workAmount : Extent) : Step :=
  if w.isInnermost && w.extent.isDynamic then .unknown
  else if w.extent.isOne && !workAmount.isOne then .broadcast
  else .strided

/-- The number of elements that the pointer moves in one iteration. -/
def increment (w : Walk) (workAmount : Extent) : Offset :=
  match w.step workAmount with
  | .unknown => .dynamic
  | .broadcast => .zero
  | .strided => strideAfter w.axis w.shape

/-- The event of a stride that is too large. -/
def events (w : Walk) (workAmount : Extent) : List Event :=
  if w.step workAmount = .strided ∧ strideOverflows w.axis w.shape then
    [.strideOverflow w.axis w.shape]
  else []

end Walk

namespace Descriptor

/-- The physical axis that a loop walks, as the layout has it. -/
def axis? (d : Descriptor) (direction : Direction) (dim : Nat) : Option Nat :=
  match direction with
  | .input => d.layout.inputAxis? dim
  | .output => d.layout.outputAxis? dim

def walk (d : Descriptor) (direction : Direction) (dim : Nat) : Except LookupError Walk :=
  match d.axis? direction dim with
  | some axis =>
    if h : axis < d.shape.length then .ok ⟨d.shape, axis, h⟩
    else .error (.axisOutOfRange dim d.layout)
  | none => .error (.axisOutOfRange dim d.layout)

end Descriptor

/-- The walk of a loop along a port. -/
def LoopPort.walk (p : LoopPort) (g : Graph) : Except LookupError Walk :=
  match g.descriptor p.port with
  | .error e => .error e
  | .ok d => d.walk p.port.direction p.dim

end TensorLoops
