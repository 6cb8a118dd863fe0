import TensorLoops.LoopTable
import TensorLoops.Text.Json

namespace TensorLoops

structure PortReport where
  /-- The port as it is written in a kernel. -/
  port : String
  direction : Direction
  /-- The shape of the tensor, if the port exists. -/
  shape : Option String
  dim : Nat
  incremented : Bool
  dataSize : Nat
  increment : Offset
  finalization : Offset
  deriving DecidableEq, Repr

structure LoopReport where
  id : LoopId
  workAmount : Extent
  entries : List PortReport
  exits : List PortReport
  deriving DecidableEq, Repr

/-- The parameters of all loops. -/
structure Report where
  loops : List LoopReport
  deriving DecidableEq, Repr

namespace Program

def portReport (p : Program) (port : LoopPort) : PortReport where
  port := p.portText port.port
  direction := port.port.direction
  shape :=
    match p.graph.descriptor port.port with
    | .ok d => some (shapeText d.shape)
    | .error _ => none
  dim := port.dim
  incremented := port.incremented
  dataSize := port.dataSize
  increment := port.increment
  finalization := port.finalization

/-- The parameters of all loops as they stand, in ascending order of the ids. -/
def report (p : Program) : Report where
  loops := p.loops.entries.map fun (id, r) =>
    { id, workAmount := r.workAmount, entries := r.entries.map p.portReport,
      exits := r.exits.map p.portReport }

end Program

namespace PortReport

def line (keyword : String) (r : PortReport) : String :=
  "    " ++ keyword ++ " " ++ r.port ++ ": dim " ++ r.dim.repr ++ ", " ++
    (if r.incremented then "incremented" else "fixed") ++ ", data_size " ++ r.dataSize.repr ++
    ", ptr_increment " ++ r.increment.text ++ ", finalization_offset " ++ r.finalization.text ++
    "\n"

end PortReport

namespace LoopReport

def lines (r : LoopReport) : String :=
  "loop " ++ loopText r.id ++ ": work_amount = " ++ r.workAmount.text ++ "\n" ++
    String.join (r.entries.map (·.line "entry")) ++ String.join (r.exits.map (·.line "exit"))

end LoopReport

namespace Report

def text (r : Report) : String := String.join (r.loops.map LoopReport.lines)

open Text (Json)

/-- What is dynamic is `null`. -/
def extentJson : Extent → Json
  | .known n => .number n.toNat
  | .dynamic => .null

def offsetJson : Offset → Json
  | .known n => .number n.toInt
  | .dynamic => .null

def directionJson : Direction → Json
  | .input => .string "input"
  | .output => .string "output"

def shapeJson : Option String → Json
  | some s => .string s
  | none => .null

def portJson (r : PortReport) : Json :=
  .object [("port", .string r.port), ("port_type", directionJson r.direction),
    ("shape", shapeJson r.shape), ("dim_idx", .number r.dim),
    ("is_incremented", .bool r.incremented), ("data_size", .number r.dataSize),
    ("ptr_increment", offsetJson r.increment),
    ("finalization_offset", offsetJson r.finalization)]

def loopJson (r : LoopReport) : Json :=
  .object [("id", .number r.id.toNat), ("work_amount", extentJson r.workAmount),
    ("entry_points", .array (r.entries.map portJson)),
    ("exit_points", .array (r.exits.map portJson))]

def json (r : Report) : Json := .object [("loops", .array (r.loops.map loopJson))]

end Report

end TensorLoops
