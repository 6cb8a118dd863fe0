import TensorLoops.LoopTable

namespace TensorLoops

namespace Program

def portLine (p : Program) (keyword : String) (port : LoopPort) : String :=
  "    " ++ keyword ++ " " ++ p.portText port.port ++ " dim " ++ port.dim.repr ++
    (if port.incremented then "" else " fixed") ++ "\n"

def loopLines (p : Program) (id : LoopId) (r : LoopRecord) : String :=
  "loop " ++ loopText id ++ " work_amount = " ++ r.workAmount.text ++ " \x7b\n" ++
    String.join (r.entries.map (p.portLine "entry")) ++
    String.join (r.exits.map (p.portLine "exit")) ++ "\x7d\n"

/-- The label of the expression that an input comes from. -/
def producerText (p : Program) (slot : Slot) : String :=
  match p.graph.connector slot.connector with
  | .error _ => "<dangling>"
  | .ok c =>
    match p.graph.expression c.source.expr with
    | .error _ => "<dangling>"
    | .ok e => e.label

def operandText (p : Program) (slot : Slot) : String :=
  p.producerText slot ++ " : " ++ slot.descriptor.text

def expressionLine (p : Program) (e : Expression) : String :=
  (match e.name with
    | some name => "%" ++ name ++ " = "
    | none => "") ++
    e.operation.name ++ "(" ++ Text.commaSeparated (e.inputs.map p.operandText) ++ ")" ++
    (match e.outputs with
      | [] => ""
      | slot :: _ => " : " ++ slot.descriptor.text) ++
    (if e.loops.isEmpty then "" else " loops " ++ Text.bracketed (e.loops.map loopText)) ++ "\n"

/-- A kernel description with the loops in ascending order and the expressions in program order,
every operand with its tensor. -/
def listing (p : Program) : String :=
  String.join (p.loops.entries.map fun entry => p.loopLines entry.1 entry.2) ++
    String.join (p.graph.expressions.map p.expressionLine)

end Program

end TensorLoops
