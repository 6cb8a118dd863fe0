import TensorLoops.Extent
import TensorLoops.Port
import TensorLoops.Source.Span

namespace TensorLoops

/-- An element type with a shape, and possibly a layout. -/
structure TensorType where
  element : Located String
  shape : List (Located Extent)
  layout : Option (Located (List UInt64))
  deriving DecidableEq, Repr

/-- A value, with a tensor type if it is not used with its own. -/
structure Operand where
  value : Located String
  type : Option (Located TensorType)
  deriving DecidableEq, Repr

structure ExpressionDecl where
  result : Option (Located String)
  operation : Located String
  operands : List (Located Operand)
  output : Option (Located TensorType)
  loops : List (Located UInt64)
  deriving DecidableEq, Repr

inductive PortKind where
  | entry
  | exit
  deriving DecidableEq, Repr

/-- A port of the expression that defines `value`. -/
structure PortDecl where
  kind : PortKind
  value : Located String
  direction : Direction
  index : UInt64
  dim : Located UInt64
  fixed : Bool
  deriving DecidableEq, Repr

structure LoopDecl where
  id : Located UInt64
  workAmount : Located Extent
  ports : List (Located PortDecl)
  deriving DecidableEq, Repr

inductive Item where
  | loop (decl : Located LoopDecl)
  | expression (decl : Located ExpressionDecl)
  deriving DecidableEq, Repr

/-- A kernel as it is written, each part with its place in the source. -/
structure Kernel where
  items : List Item
  span : Span
  deriving DecidableEq, Repr

namespace Kernel

/-- The loop declarations in order. -/
def loops (k : Kernel) : List (Located LoopDecl) :=
  k.items.filterMap fun
    | .loop decl => some decl
    | .expression _ => none

/-- The expression declarations in order. -/
def expressions (k : Kernel) : List (Located ExpressionDecl) :=
  k.items.filterMap fun
    | .expression decl => some decl
    | .loop _ => none

end Kernel

end TensorLoops
