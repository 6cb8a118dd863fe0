import TensorLoops.Pointer
import TensorLoops.WorkAmount

namespace TensorLoops

/-- How much of a loop record is computed anew. -/
inductive Mode where
  | full
  /-- What the kernel's structure decides is kept. -/
  | callTime
  deriving DecidableEq, Repr

/-- The event of a way back that is too large. -/
def rewindEvents : Offset → Extent → List Event
  | .known increment, .known workAmount =>
    if Offset.CanRewind increment workAmount then [] else [.rewindOverflow increment workAmount]
  | _, _ => []

namespace LoopPort

/-- Sets the increment and the offset that undoes it. -/
def withIncrement (p : LoopPort) (increment : Offset) (workAmount : Extent) : LoopPort :=
  { p with increment, finalization := increment.rewind workAmount }

/-- Recomputes what depends on the number of iterations. A port whose axis cannot be found keeps
its finalization offset and is left with an increment of zero. -/
def refresh (p : LoopPort) (g : Graph) (workAmount : Extent) : Attempt LoopPort Unit :=
  if p.incremented then
    match p.walk g with
    | .error e => .fail { p with increment := .zero } (.lookup e) []
    | .ok w =>
      let increment := w.increment workAmount
      .done (p.withIncrement increment workAmount) ()
        (w.events workAmount ++ rewindEvents increment workAmount)
  else .done (p.withIncrement .zero workAmount) () (rewindEvents .zero workAmount)

/-- Decides whether the pointer moves. -/
def classify (p : LoopPort) (g : Graph) (loop : LoopId) : Attempt LoopPort Unit :=
  match g.pointer loop p.port with
  | .error e => .fail p e []
  | .ok pointer =>
    .done { p with incremented := pointer.moves p.incremented } ()
      (g.pointerEvents loop p.port pointer)

/-- Looks up the size of an element. -/
def measure (p : LoopPort) (g : Graph) : Attempt LoopPort Unit :=
  match g.descriptor p.port with
  | .error e => .fail p (.lookup e) []
  | .ok d => .done { p with dataSize := d.element.size } () []

/-- Fills in the fields of a port. -/
def resolve (p : LoopPort) (g : Graph) (loop : LoopId) (workAmount : Extent) (mode : Mode) :
    Attempt LoopPort Unit :=
  let structured := match mode with
    | .full => (p.classify g loop).andThen (·.measure g)
    | .callTime => .done p () []
  (structured.andThen (·.refresh g workAmount)).andThen fun p =>
    .done p () [.portResolved loop p]

end LoopPort

namespace LoopRecord

/-- Resolves the number of iterations, then fills in the ports. -/
def resolve (r : LoopRecord) (g : Graph) (loop : LoopId) (mode : Mode) :
    Attempt LoopRecord Unit :=
  match r.resolvedAmount g loop with
  | .error e => .fail r e []
  | .ok workAmount =>
    (({ r with workAmount }).eachPort fun p => p.resolve g loop workAmount mode).after
      [.workAmountKnown loop workAmount]

/-- Sets the number of iterations and recomputes what depends on it. -/
def refresh (r : LoopRecord) (g : Graph) (loop : LoopId) (workAmount : Extent) :
    Attempt LoopRecord Unit :=
  (({ r with workAmount }).eachPort fun p => p.refresh g workAmount).after
    [.refreshing loop r.workAmount workAmount]

end LoopRecord

namespace Program

/-- Treats the record of one loop. -/
def onLoop (p : Program) (loop : LoopId) (f : LoopRecord → Attempt LoopRecord Unit) :
    Attempt Program Unit :=
  match p.loops.get? loop with
  | none => .fail p (.missingLoop loop) []
  | some r => (f r).mapState fun r => { p with loops := p.loops.modify loop fun _ => r }

def resolveLoop (p : Program) (loop : LoopId) (mode : Mode) : Attempt Program Unit :=
  p.onLoop loop fun r => r.resolve p.graph loop mode

def refreshLoop (p : Program) (loop : LoopId) (workAmount : Extent) : Attempt Program Unit :=
  p.onLoop loop fun r => r.refresh p.graph loop workAmount

/-- Whether there is anything to compute. -/
def hasLoops (p : Program) : Bool := !p.isEmpty && !p.loops.isEmpty

/-- Resolves every loop in ascending order of the ids. The answer is whether there was anything
to compute. -/
def resolve (p : Program) (mode : Mode) : Attempt Program Bool :=
  if p.hasLoops then
    ((p.loops.each fun loop r => r.resolve p.graph loop mode).mapState
      ({ p with loops := · })).withResult true
  else .done p false []

end Program

end TensorLoops
