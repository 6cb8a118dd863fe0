import TensorLoops.Text.Bracketed

namespace TensorLoops

/-- Position `i` holds the axis stored there; for a tensor of rank `n` a permutation of
`0, …, n - 1`. -/
abbrev Layout := List Nat

namespace Layout

/-- The layout that keeps the axes in order. -/
def identity (rank : Nat) : Layout := List.range rank

def isIdentity (layout : Layout) : Bool := layout == identity layout.length

/-- The axis of an input that a loop walks, `dim` axes away from the innermost one. -/
def inputAxis? (layout : Layout) (dim : Nat) : Option Nat :=
  if dim < layout.length then layout[layout.length - 1 - dim]? else none

/-- The axis of an output that a loop walks: where the layout stores the axis that is `dim` axes
away from the innermost one. -/
def outputAxis? (layout : Layout) (dim : Nat) : Option Nat :=
  if dim < layout.length then layout.findIdx? (· == layout.length - 1 - dim) else none

/-- Marks the axes one by one and fails on an axis that is out of range or marked already. -/
def marks (rank : Nat) (seen : List Nat) : List Nat → Bool
  | [] => true
  | axis :: rest => axis < rank && !seen.contains axis && marks rank (axis :: seen) rest

/-- Whether each of `0, …, n - 1` occurs exactly once in a layout of length `n`. -/
def isPermutation (layout : Layout) : Bool := marks layout.length [] layout

def text (layout : Layout) : String := Text.bracketed (layout.map Nat.repr)

end Layout

end TensorLoops
