import TensorLoops.CommandLine.UsageError

namespace TensorLoops.CommandLine

/-- Why reading arguments ends early. -/
inductive Stop where
  | usage (e : UsageError)
  | version
  | help
  deriving DecidableEq, Repr

/-- An argument whose value is still to come, or to be checked when the next argument begins. -/
inductive Pending where
  | nothing
  | option (name : OptionName) (value : Option String)
  | source (value : String)
  deriving DecidableEq, Repr

/-- What has been read so far. -/
structure Draft where
  source : Option String
  output : Option String
  emit : Option Emit
  overrides : Overrides
  verbose : Bool
  /-- The options that were set, each once, in order. -/
  used : List OptionName
  pending : Pending
  /-- After `--` every argument is a source file. -/
  sourcesOnly : Bool
  deriving DecidableEq, Repr

namespace Draft

def empty : Draft := ⟨none, none, none, [], false, [], .nothing, false⟩

/-- Sets an option to a value, or a flag, for which the value does not matter. -/
def set (d : Draft) (option : OptionName) (value : String) : Except Stop Draft :=
  if d.used.contains option && !option.repeatable then .error (.usage (.repeated option))
  else if option.needsText && value.isEmpty then
    .error (.usage (.missingValue option.usage option.choices))
  else
    let d := { d with used := addOnce d.used option }
    match option with
    | .output => .ok { d with output := some value }
    | .emit =>
      match Emit.ofArgument? value with
      | some emit => .ok { d with emit := some emit }
      | none => .error (.usage (.invalidEmit value))
    | .workAmount =>
      match readAmount value with
      | .ok amount => .ok { d with overrides := d.overrides ++ [amount] }
      | .error e => .error (.usage (.invalidAmount value e))
    | .verbose => .ok { d with verbose := true }
    | .help => .error .help
    | .version => .error .version

/-- Checks the pending argument. -/
def settle (d : Draft) : Except Stop Draft :=
  match d.pending with
  | .nothing => .ok d
  | .source value =>
    if value.isEmpty then .error (.usage (.missingValue "<SOURCE>" []))
    else .ok { d with source := some value, pending := .nothing }
  | .option option none => .error (.usage (.missingValue option.usage option.choices))
  | .option option (some value) => ({ d with pending := .nothing }).set option value

/-- The options that count as set when the pending one does, with whatever value. One that cannot be
repeated, but is, does not count any more. -/
def usedWithPending (d : Draft) : List OptionName :=
  match d.pending with
  | .option option (some _) =>
    if d.used.contains option && !option.repeatable then d.used.erase option
    else addOnce d.used option
  | .option _ none | .source _ | .nothing => d.used

/-- Whether a source file was given, checked or not. -/
def hasSource (d : Draft) : Bool :=
  d.source.isSome ||
    match d.pending with
    | .source _ => true
    | .option _ _ | .nothing => false

/-- A source file; a pending argument is not checked if there is one already. -/
def addSource (d : Draft) (arg : String) : Except Stop Draft :=
  if d.hasSource then .error (.usage (.unexpectedSource arg))
  else d.settle.map fun d => { d with pending := .source arg }

/-- An option, with its value if that is attached. A flag with a value is reported before a pending
argument is checked. -/
def addOption (d : Draft) (option : OptionName) (attached : Option String) : Except Stop Draft :=
  match option.takesValue, attached with
  | true, none => d.settle.map fun d => { d with pending := .option option none }
  | true, some value => d.settle.bind fun d => d.set option value
  | false, none => d.settle.bind fun d => d.set option ""
  | false, some value =>
    .error (.usage (.unexpectedValue value option (d.used.isEmpty && d.source.isNone)))

/-- An argument with two dashes in front, given without them. -/
def addLong (d : Draft) (arg : List Char) : Except Stop Draft :=
  let (name, attached) : List Char × Option String :=
    match splitEquals? arg with
    | some (name, value) => (name, some (.ofList value))
    | none => (arg, none)
  match OptionName.ofLong? (.ofList name) with
  | some option => d.addOption option attached
  | none => .error (.usage (.unknownLong (.ofList name) d.usedWithPending d.hasSource))

/-- The value behind a short option may begin with an equals sign that does not count. -/
def attachedValue : List Char → Option String
  | [] => none
  | '=' :: value => some (.ofList value)
  | value => some (.ofList value)

/-- An argument with one dash in front, given by its letter and what follows it, which is looked at only
where a value can stand. -/
def addShort (d : Draft) (letter : Char) (rest : List Char) : Except Stop Draft :=
  match OptionName.ofShort? letter with
  | some option => d.addOption option (if option.takesValue then attachedValue rest else none)
  | none => .error (.usage (.unknownShort letter))

/-- An argument that is no option: a value if one is awaited, else a source file. -/
def addPlain (d : Draft) (arg : String) : Except Stop Draft :=
  match d.pending with
  | .option option none => .ok { d with pending := .option option (some arg) }
  | _ => d.addSource arg

/-- Reads one argument. -/
def add (d : Draft) (arg : String) : Except Stop Draft :=
  if d.sourcesOnly then d.addSource arg
  else
    match arg.toList with
    | ['-', '-'] => .ok { d with sourcesOnly := true }
    | '-' :: '-' :: name => d.addLong name
    | '-' :: letter :: rest => d.addShort letter rest
    | _ => d.addPlain arg

/-- Reads arguments up to the first that ends the reading. -/
def addAll (d : Draft) : List String → Except Stop Draft
  | [] => .ok d
  | arg :: rest =>
    match d.add arg with
    | .ok d => d.addAll rest
    | .error stop => .error stop

end Draft

/-- The options that the arguments stand for. -/
def readArguments (args : List String) : Except Stop Options :=
  match (Draft.empty.addAll args).bind Draft.settle with
  | .error stop => .error stop
  | .ok d =>
    match d.source with
    | none => .error (.usage (.missingSource d.used))
    | some source =>
      .ok { source, output := d.output, emit := d.emit.getD .params, overrides := d.overrides,
            verbose := d.verbose }

end TensorLoops.CommandLine
