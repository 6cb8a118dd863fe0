import TensorLoops.Extent
import TensorLoops.Layout
import TensorLoops.ElementType
import TensorLoops.Operation
import TensorLoops.Port

namespace TensorLoops

/-- Loops are named by the numbers that the kernel gives them. -/
abbrev LoopId := UInt32

/-- The position of a connector in the list of connectors. -/
abbrev ConnectorId := Nat

def loopText (id : LoopId) : String := id.toNat.repr

/-- The tensor at a port. -/
structure Descriptor where
  element : ElementType
  shape : List Extent
  layout : Layout
  deriving DecidableEq, Repr

namespace Descriptor

/-- A tensor whose axes are stored in order. -/
def dense (element : ElementType) (shape : List Extent) : Descriptor :=
  { element, shape, layout := .identity shape.length }

/-- The layout is left out when it keeps the axes in order. -/
def text (d : Descriptor) : String :=
  d.element.name ++ shapeText d.shape ++
    if d.layout.isIdentity then "" else " layout " ++ d.layout.text

end Descriptor

/-- A port of an expression: its tensor and the connector it is attached to. -/
structure Slot where
  descriptor : Descriptor
  connector : ConnectorId
  deriving DecidableEq, Repr

structure Expression where
  id : ExprId
  /-- The name of the value it defines, without the sign in front. -/
  name : Option String
  operation : Operation
  /-- The loops around it, the outermost first. -/
  loops : List LoopId
  inputs : List Slot
  outputs : List Slot
  deriving DecidableEq, Repr

namespace Expression

def innermost? (e : Expression) : Option LoopId := e.loops.getLast?

/-- An expression without a name is called by its position. -/
def label (e : Expression) : String :=
  match e.name with
  | some name => "%" ++ name
  | none => "#" ++ e.id.repr

def slots (e : Expression) : Direction → List Slot
  | .input => e.inputs
  | .output => e.outputs

def mapSlots (e : Expression) (f : List Slot → List Slot) : Direction → Expression
  | .input => { e with inputs := f e.inputs }
  | .output => { e with outputs := f e.outputs }

end Expression

/-- What leads from one producing port to any number of consuming ports. -/
structure Connector where
  source : Port
  consumers : List Port
  deriving DecidableEq, Repr

/-- Ways in which a program can fail to hold what it refers to. -/
inductive LookupError where
  | missingExpression (id : ExprId)
  | missingPort (port : Port)
  | missingConnector (id : ConnectorId)
  | axisOutOfRange (dim : Nat) (layout : Layout)
  deriving DecidableEq, Repr

def LookupError.message : LookupError → String
  | missingExpression id => "expression #" ++ id.repr ++ " does not exist"
  | missingPort port =>
    "expression #" ++ port.expr.repr ++ " has no " ++ port.direction.name ++ " port " ++
      port.index.repr
  | missingConnector id => "connector " ++ id.repr ++ " does not exist"
  | axisOutOfRange dim layout =>
    "dimension index " ++ dim.repr ++ " is out of range for layout " ++ layout.text

/-- The expressions of a kernel in program order, and the connectors between their ports. -/
structure Graph where
  expressions : List Expression
  connectors : List Connector
  deriving DecidableEq, Repr

namespace Graph

def empty : Graph := ⟨[], []⟩

def expression (g : Graph) (id : ExprId) : Except LookupError Expression :=
  match g.expressions[id]? with
  | some e => .ok e
  | none => .error (.missingExpression id)

def connector (g : Graph) (id : ConnectorId) : Except LookupError Connector :=
  match g.connectors[id]? with
  | some c => .ok c
  | none => .error (.missingConnector id)

def slot (g : Graph) (port : Port) : Except LookupError Slot :=
  match g.expression port.expr with
  | .error e => .error e
  | .ok e =>
    match (e.slots port.direction)[port.index]? with
    | some s => .ok s
    | none => .error (.missingPort port)

def descriptor (g : Graph) (port : Port) : Except LookupError Descriptor :=
  match g.slot port with
  | .error e => .error e
  | .ok s => .ok s.descriptor

/-- The connector of an input leads to its producer, that of an output to its consumers. -/
def portConnector (g : Graph) (port : Port) : Except LookupError Connector :=
  match g.slot port with
  | .error e => .error e
  | .ok s => g.connector s.connector

def addExpression (g : Graph) (e : Expression) : Graph :=
  { g with expressions := g.expressions ++ [e] }

def addConnector (g : Graph) (c : Connector) : Graph :=
  { g with connectors := g.connectors ++ [c] }

/-- Nothing changes if the port does not exist. -/
def modifyDescriptor (g : Graph) (port : Port) (f : Descriptor → Descriptor) : Graph :=
  { g with
    expressions := g.expressions.modify port.expr fun e =>
      e.mapSlots
        (·.modify port.index fun s => { s with descriptor := f s.descriptor }) port.direction }

/-- Nothing changes if the connector does not exist. -/
def modifyConnector (g : Graph) (id : ConnectorId) (f : Connector → Connector) : Graph :=
  { g with connectors := g.connectors.modify id f }

end Graph

end TensorLoops
