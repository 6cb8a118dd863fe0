import TensorLoops.CommandLine.Arguments
import TensorLoops.Listing
import TensorLoops.Report

namespace TensorLoops.CommandLine

/-- What the program asks of its surroundings. A failure is described by its text. -/
structure Host (m : Type → Type) where
  load : String → m (Except String String)
  store : String → String → m (Except String Unit)
  /-- Computes a value and says how long that took. -/
  timed : {α : Type} → (Unit → α) → m (α × String)

/-- What the program leaves to its caller. -/
structure Outcome where
  exitCode : UInt32
  stdout : String
  /-- Lines, or texts of several lines. -/
  stderr : List String
  deriving DecidableEq, Repr

def versionText : String := "loopinit " ++ compilerVersion ++ "\n"

def helpText : String :=
  "Resolves loop work amounts, pointer increments and finalization offsets of lowered kernels\n\n" ++
  generalUsage ++ "\n\n" ++
  "Arguments:\n" ++
  "  <SOURCE>  Input kernel description file\n\n" ++
  "Options:\n" ++
  "  -o, --output <OUTPUT>             Output file path (stdout if omitted)\n" ++
  "      --emit <EMIT>                 Output stage [default: params] [possible values: " ++
    Text.commaSeparated (Emit.all.map Emit.argument) ++ "]\n" ++
  "      --work-amount <WORK_AMOUNTS>  Concrete work amount for a loop, as LOOP=N (repeatable)\n" ++
  "      --verbose                     Print compiler phases and timing\n" ++
  "  -h, --help                        Print help\n" ++
  "  -V, --version                     Print version\n"

/-- The answer to arguments that do not lead to a compilation. -/
def stopped : Stop → Outcome
  | .usage e => ⟨2, "", [e.text]⟩
  | .version => ⟨0, versionText, []⟩
  | .help => ⟨0, helpText, []⟩

namespace Options

/-- Lines that only a verbose call shows. -/
def note (o : Options) (lines : List String) : List String := if o.verbose then lines else []

def header (o : Options) : List String :=
  o.note ["loopinit: source = " ++ o.source, "loopinit: emit   = " ++ o.emit.name]

def fileError (path reason : String) : String := "loopinit: error: " ++ path ++ ": " ++ reason

def timing (stage : Stage) (time : String) : String :=
  "loopinit: " ++ stage.name ++ " complete, " ++ time

/-- The result of a compilation without errors. -/
def resultText (emit : Emit) (c : Compilation) : String :=
  match emit with
  | .buildInfo => (c.provenance.map Provenance.text).getD ""
  | .ir => (c.program.map Program.listing).getD ""
  | .params => (c.program.map (·.report.text)).getD ""
  | .json => (c.program.map (·.report.json.text ++ "\n")).getD ""

/-- A diagnostic of a file. -/
def diagnosticLine (o : Options) (source : String) (d : Diagnostic) : String :=
  o.source ++ ": " ++ (d.render? source).getD d.text

variable {m : Type → Type} [Monad m]

/-- Performs stages and notes how long each of them took. -/
def advanceAll (o : Options) (host : Host m) (r : Run) : List Stage → m (Run × List String)
  | [] => pure (r, [])
  | stage :: rest => do
    if r.failure.isSome then pure (r, [])
    else
      let (r, time) ← host.timed fun _ => r.advance o.overrides stage
      let (r, times) ← o.advanceAll host r rest
      pure (r, timing stage time :: times)

/-- Compiles a source text. One that cannot be read is not compiled. -/
def compile (o : Options) (host : Host m) (source : String) : m (Run × List String) :=
  let c := Compilation.ofSource source
  o.advanceAll host (.start c) (if c.hasError then [] else o.emit.terminal.required)

/-- Writes the result to its file, or leaves it to the caller. -/
def deliver (o : Options) (host : Host m) (text : String) (stderr : List String) : m Outcome :=
  match o.output with
  | none => pure ⟨0, text, stderr⟩
  | some path => do
    match ← host.store path text with
    | .error reason => pure ⟨2, "", stderr ++ [fileError path reason]⟩
    | .ok () => pure ⟨0, "", stderr ++ o.note ["loopinit: wrote " ++ path]⟩

/-- A whole call with these options. -/
def call (o : Options) (host : Host m) : m Outcome := do
  match ← host.load o.source with
  | .error reason => pure ⟨2, "", o.header ++ [fileError o.source reason]⟩
  | .ok source =>
    let (r, times) ← o.compile host source
    let c := r.compilation
    let stderr :=
      o.header ++ o.note times ++ c.diagnostics.map (o.diagnosticLine source)
    if c.hasError then pure ⟨1, "", stderr⟩
    else o.deliver host (resultText o.emit c) stderr

end Options

/-- A whole call with these arguments. -/
def call {m : Type → Type} [Monad m] (host : Host m) (args : List String) : m Outcome :=
  match readArguments args with
  | .error stop => pure (stopped stop)
  | .ok o => o.call host

end TensorLoops.CommandLine
