import TensorLoops.CommandLine.Amount
import TensorLoops.Text.Similarity

namespace TensorLoops.CommandLine

/-- What is written out in the end. -/
inductive Emit where
  | params
  | json
  | ir
  | buildInfo
  deriving DecidableEq, Repr

namespace Emit

def all : List Emit := [params, json, ir, buildInfo]

def argument : Emit → String
  | params => "params"
  | json => "json"
  | ir => "ir"
  | buildInfo => "build-info"

def name : Emit → String
  | params => "Params"
  | json => "Json"
  | ir => "Ir"
  | buildInfo => "BuildInfo"

def ofArgument? (s : String) : Option Emit := all.find? (·.argument == s)

/-- The listing needs the program only. -/
def terminal : Emit → Stage
  | ir => .lower
  | params | json | buildInfo => .verify

end Emit

/-- What a call can be given. -/
structure Options where
  source : String
  output : Option String
  emit : Emit
  overrides : Overrides
  verbose : Bool
  deriving DecidableEq, Repr

/-- The options by name. -/
inductive OptionName where
  | output
  | emit
  | workAmount
  | verbose
  | help
  | version
  deriving DecidableEq, Repr

namespace OptionName

def all : List OptionName := [output, emit, workAmount, verbose, help, version]

/-- The long form, without the dashes. -/
def long : OptionName → String
  | output => "output"
  | emit => "emit"
  | workAmount => "work-amount"
  | verbose => "verbose"
  | help => "help"
  | version => "version"

/-- The short form, without the dash. -/
def short? : OptionName → Option Char
  | output => some 'o'
  | help => some 'h'
  | version => some 'V'
  | emit | workAmount | verbose => none

def takesValue : OptionName → Bool
  | output | emit | workAmount => true
  | verbose | help | version => false

/-- Whether an empty value is as good as none. -/
def needsText : OptionName → Bool
  | output | emit => true
  | workAmount | verbose | help | version => false

/-- Only numbers of iterations can be given more than once. -/
def repeatable (o : OptionName) : Bool := o = workAmount

/-- Whether the option bears on a compilation. The others ask about the program itself. -/
def compiles : OptionName → Bool
  | output | emit | workAmount | verbose => true
  | help | version => false

/-- The long form with the name of its value, as usage lines have it. -/
def usage : OptionName → String
  | output => "--output <OUTPUT>"
  | emit => "--emit <EMIT>"
  | workAmount => "--work-amount <WORK_AMOUNTS>"
  | verbose => "--verbose"
  | help => "--help"
  | version => "--version"

/-- The values to choose from, if they are few. -/
def choices : OptionName → List String
  | emit => Emit.all.map Emit.argument
  | output | workAmount | verbose | help | version => []

def ofLong? (s : String) : Option OptionName := all.find? (·.long == s)

def ofShort? (c : Char) : Option OptionName := all.find? (·.short? == some c)

/-- The option whose long form is most similar to a text. -/
def ofSimilar? (s : String) : Option OptionName :=
  (Text.mostSimilar? s (all.map long)).bind ofLong?

theorem ofLong?_long (o : OptionName) : ofLong? o.long = some o := by cases o <;> rfl

theorem ofShort?_eq_some {c : Char} {o : OptionName} (h : ofShort? c = some o) :
    o.short? = some c := by
  simpa using List.find?_some h

end OptionName

end TensorLoops.CommandLine
