namespace TensorLoops

/-- The position of an expression in the program. -/
abbrev ExprId := Nat

inductive Direction where
  | input
  | output
  deriving DecidableEq, Repr

namespace Direction

/-- The word for the direction in a kernel. -/
def keyword : Direction → String
  | input => "in"
  | output => "out"

/-- The word for the direction in prose. -/
def name : Direction → String
  | input => "Input"
  | output => "Output"

end Direction

/-- One operand or one result of an expression. -/
structure Port where
  expr : ExprId
  direction : Direction
  index : Nat
  deriving DecidableEq, Repr

end TensorLoops
