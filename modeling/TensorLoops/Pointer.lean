import TensorLoops.Attempt

namespace TensorLoops

/-- The loops that two expressions share, from the outermost one to the first difference. -/
def commonLoops : List LoopId → List LoopId → List LoopId
  | a :: as, b :: bs => if a = b then a :: commonLoops as bs else []
  | _, _ => []

/-- Whether two expressions share their loops down to `loop`. -/
def sharesLoops (a b : List LoopId) (loop : LoopId) : Bool := (commonLoops a b).contains loop

/-- The standing of a pointer with respect to a loop. -/
inductive Pointer where
  /-- The expression does not access memory. -/
  | absent
  /-- A buffer keeps the pointer in place. -/
  | held
  /-- The loop may advance the pointer. -/
  | free
  deriving DecidableEq, Repr

namespace Pointer

/-- A free pointer moves unless the port is fixed. -/
def moves (p : Pointer) (incremented : Bool) : Bool :=
  match p with
  | free => incremented
  | absent | held => false

end Pointer

namespace Graph

/-- Whether `other` is a buffer that shares the loops of `e` down to `loop`. -/
def isBoundary (e other : Expression) (loop : LoopId) : Bool :=
  other.operation.isBuffer && sharesLoops e.loops other.loops loop

/-- Looks at the expressions of `ports` one by one until there is a boundary. -/
def anyBoundary (g : Graph) (e : Expression) (loop : LoopId) :
    List Port → Except LookupError Bool
  | [] => .ok false
  | port :: rest =>
    match g.expression port.expr with
    | .error err => .error err
    | .ok other => if isBoundary e other loop then .ok true else g.anyBoundary e loop rest

/-- The ports on the other side of a connector. -/
def otherSide (c : Connector) : Direction → List Port
  | .input => [c.source]
  | .output => c.consumers

/-- Whether a buffer on the other side of `port` lies under the loops of `e` down to `loop`. Such a
buffer separates the two loop nests already. -/
def behindBuffer (g : Graph) (e : Expression) (port : Port) (loop : LoopId) :
    Except LookupError Bool :=
  match g.portConnector port with
  | .error err => .error err
  | .ok c => g.anyBoundary e loop (otherSide c port.direction)

/-- The standing of the pointer at `port` with respect to `loop`. -/
def pointer (g : Graph) (loop : LoopId) (port : Port) : Except LoopError Pointer :=
  match g.expression port.expr with
  | .error err => .error (.lookup err)
  | .ok e =>
    if e.operation.accessesMemory then
      match e.innermost? with
      | none => .error (.outsideLoops loop e.label)
      | some inner =>
        if inner = loop then .ok .free
        else
          match g.behindBuffer e port loop with
          | .error err => .error (.lookup err)
          | .ok true => .ok .held
          | .ok false => .ok .free
    else .ok .absent

/-- The event of a pointer that is held by a buffer. -/
def pointerEvents (g : Graph) (loop : LoopId) (port : Port) (p : Pointer) : List Event :=
  match p, g.expression port.expr with
  | .held, .ok e => [.behindBuffer loop port e.label]
  | _, _ => []

end Graph

end TensorLoops
