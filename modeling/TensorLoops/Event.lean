import TensorLoops.LoopTable

namespace TensorLoops

inductive Severity where
  | warn
  | debug
  | trace
  deriving DecidableEq, Repr

namespace Severity

def name : Severity → String
  | warn => "WARN"
  | debug => "DEBUG"
  | trace => "TRACE"

/-- The most severe first. -/
def rank : Severity → Nat
  | warn => 0
  | debug => 1
  | trace => 2

/-- Whether an event of this severity is shown when those of `threshold` are. -/
def shownAt (s threshold : Severity) : Bool := s.rank ≤ threshold.rank

end Severity

/-- What the passes report about their own work. -/
inductive Event where
  /-- The stride of an axis does not fit in an offset. -/
  | strideOverflow (axis : Nat) (shape : List Extent)
  /-- The way back of a pointer does not fit in an offset. -/
  | rewindOverflow (increment : Int64) (workAmount : UInt64)
  | workAmountKnown (loop : LoopId) (workAmount : Extent)
  /-- A buffer on the other side of a port keeps its pointer from moving. -/
  | behindBuffer (loop : LoopId) (port : Port) (label : String)
  | portResolved (loop : LoopId) (port : LoopPort)
  | refreshing (loop : LoopId) (before after : Extent)
  | lowered (expressions loops diagnostics : Nat)
  | resolved (changed : Bool)
  deriving DecidableEq, Repr

namespace Event

def severity : Event → Severity
  | strideOverflow .. | rewindOverflow .. => .warn
  | workAmountKnown .. | refreshing .. | lowered .. | resolved .. => .debug
  | behindBuffer .. | portResolved .. => .trace

def boolText (b : Bool) : String := if b then "true" else "false"

def message : Event → String
  | strideOverflow axis shape =>
    "stride after dim " ++ axis.repr ++ " of " ++ shapeText shape ++
      " overflows, treating as dynamic"
  | rewindOverflow increment workAmount =>
    "finalization offset " ++ (Offset.known increment).text ++ " * " ++ workAmount.toNat.repr ++
      " overflows, treating as dynamic"
  | workAmountKnown loop workAmount =>
    "init_loops: loop " ++ loopText loop ++ " work_amount = " ++ workAmount.text
  | behindBuffer loop port label =>
    "init_loops: loop " ++ loopText loop ++ ": " ++ port.direction.keyword ++ " port " ++
      port.index.repr ++ " of " ++ label ++ " sits behind a buffer, not incremented"
  | portResolved loop p =>
    "init_loops: loop " ++ loopText loop ++ ": port #" ++ p.port.expr.repr ++ "." ++
      p.port.direction.keyword ++ "[" ++ p.port.index.repr ++ "] inc=" ++ boolText p.incremented ++
      " ptr_increment=" ++ p.increment.text ++ " finalization_offset=" ++ p.finalization.text
  | refreshing loop before after =>
    "init_loops: refresh loop " ++ loopText loop ++ " work_amount " ++ before.text ++ " -> " ++
      after.text
  | lowered expressions loops diagnostics =>
    "lower: " ++ expressions.repr ++ " expressions, " ++ loops.repr ++ " loops, " ++
      diagnostics.repr ++ " diagnostics"
  | resolved changed => "init_loops: changed = " ++ boolText changed

/-- The severity, then the message. -/
def text (e : Event) : String := e.severity.name ++ " " ++ e.message

/-- The texts of the events that are at least as severe as `threshold`, in order. -/
def log (threshold : Severity) (events : List Event) : List String :=
  (events.filter (·.severity.shownAt threshold)).map text

end Event

end TensorLoops
