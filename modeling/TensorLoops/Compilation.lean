import TensorLoops.Certificate
import TensorLoops.Lowering
import TensorLoops.Provenance
import TensorLoops.Stage

namespace TensorLoops

/-- Numbers of iterations to be used instead of the computed ones, applied in order. -/
abbrev Overrides := List (LoopId × UInt64)

/-- What the stages have produced so far. -/
structure Compilation where
  kernel : Kernel
  program : Option Program
  certificate : Option Certificate
  problems : List (Located Problem)
  hasError : Bool
  provenance : Option Provenance
  deriving DecidableEq

/-- The outcome of a stage. -/
structure Performed where
  compilation : Compilation
  problems : List (Located Problem)
  events : List Event
  deriving DecidableEq

namespace Program

/-- The outcome of applying overrides. -/
structure Refreshed where
  program : Program
  problems : List (Located Problem)
  events : List Event
  deriving DecidableEq

/-- A loop that does not exist cannot be overridden. -/
def overrideProblem : LoopError → Problem
  | .missingLoop loop => .overrideRejected (.missingLoop loop)
  | e => .parametersFailed e

/-- Applies the overrides one after the other, each whether or not those before have failed. -/
def applyOverrides (span : Span) (p : Program) : Overrides → Refreshed
  | [] => ⟨p, [], []⟩
  | (loop, n) :: rest =>
    let attempt := p.refreshLoop loop (.known n)
    let problems :=
      match attempt.result with
      | .ok () => []
      | .error e => [⟨overrideProblem e, span⟩]
    let refreshed := applyOverrides span attempt.state rest
    { refreshed with
      problems := problems ++ refreshed.problems
      events := attempt.events ++ refreshed.events }

end Program

namespace Compilation

def ofKernel (kernel : Kernel) : Compilation := ⟨kernel, none, none, [], false, none⟩

def diagnostics (c : Compilation) : List Diagnostic := Problem.diagnostics c.problems

def performLower (c : Compilation) : Performed :=
  let lowered := lower c.kernel
  ⟨{ c with program := some lowered.program }, lowered.problems, lowered.events⟩

def performResolve (c : Compilation) (p : Program) : Performed :=
  let attempt := p.resolve .full
  let c := { c with program := some attempt.state }
  match attempt.result with
  | .ok changed => ⟨c, [], attempt.events ++ [.resolved changed]⟩
  | .error e => ⟨c, [⟨.parametersFailed e, c.kernel.span⟩], attempt.events⟩

def performRefresh (c : Compilation) (p : Program) (overrides : Overrides) : Performed :=
  let refreshed := p.applyOverrides c.kernel.span overrides
  ⟨{ c with program := some refreshed.program }, refreshed.problems, refreshed.events⟩

def performVerify (c : Compilation) (p : Program) : Performed :=
  let certificate := p.certificate
  ⟨{ c with certificate := some certificate },
    if certificate.allPass then []
    else [⟨.verificationFailed certificate.failed, c.kernel.span⟩],
    p.certificateEvents⟩

/-- Performs one stage. All but the first need a program. -/
def perform (c : Compilation) (overrides : Overrides) (stage : Stage) : Option Performed :=
  match stage, c.program with
  | .lower, _ => some c.performLower
  | _, none => none
  | .resolve, some p => some (c.performResolve p)
  | .refresh, some p => some (c.performRefresh p overrides)
  | .verify, some p => some (c.performVerify p)

end Compilation

/-- A run over a compilation, as far as it has come. -/
structure Run where
  compilation : Compilation
  /-- The stages performed and the problems of each. -/
  performed : List (Stage × List (Located Problem))
  /-- The stage that stopped the run. -/
  failure : Option Stage
  events : List Event
  deriving DecidableEq

namespace Run

def start (c : Compilation) : Run := ⟨c, [], none, []⟩

/-- Takes up the outcome of a stage. -/
def record (r : Run) (stage : Stage) (p : Performed) : Run :=
  let failed := Problem.anyError p.problems
  { compilation :=
      { p.compilation with
        problems := p.compilation.problems ++ p.problems
        hasError := p.compilation.hasError || failed }
    performed := r.performed ++ [(stage, p.problems)]
    failure := if failed then some stage else none
    events := r.events ++ p.events }

/-- Performs one more stage, unless the run has stopped. -/
def advance (overrides : Overrides) (r : Run) (stage : Stage) : Run :=
  match r.failure with
  | some _ => r
  | none =>
    match r.compilation.perform overrides stage with
    | none => { r with failure := some stage }
    | some p => r.record stage p

/-- The message for a run that was stopped by a stage. -/
def failureText (stage : Stage) : String := "pass `" ++ stage.name ++ "` failed"

end Run

namespace Compilation

/-- Performs the stages that `terminal` requires, up to the first one that reports an error. What
was produced before stays, also when the same compilation is run again. -/
def run (c : Compilation) (terminal : Stage) (overrides : Overrides) : Run :=
  terminal.required.foldl (Run.advance overrides) (.start c)

end Compilation

/-- The compilation that a source text begins with. A text that cannot be read has no kernel, no
provenance, and only its problems. -/
def Compilation.ofSource (source : String) : Compilation :=
  match readSource source with
  | .ok kernel => { ofKernel kernel with provenance := some (.ofSource source) }
  | .error errors =>
    { ofKernel ⟨[], ⟨0, source.utf8ByteSize⟩⟩ with
      problems := Problem.ofParse errors, hasError := true }

/-- Compiles a source text up to a stage. -/
def compile (source : String) (terminal : Stage) (overrides : Overrides) : Run :=
  let c := Compilation.ofSource source
  if c.hasError then .start c else c.run terminal overrides

end TensorLoops
