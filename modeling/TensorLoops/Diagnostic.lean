import TensorLoops.Source.Position

namespace TensorLoops

/-- The stable codes of diagnostics. -/
inductive Code where
  | syntaxError
  | unknownOperation
  | wrongOperandCount
  | undefinedValue
  | duplicateValue
  | operandWithoutValue
  | duplicateLoop
  | undeclaredLoop
  | missingPort
  | portOutsideLoop
  | invalidLayout
  | unknownElementType
  | missingOutputType
  | rankMismatch
  | loopIdOutOfRange
  | parametersFailed
  | overrideRejected
  | verificationFailed
  | loopWithoutPorts
  deriving DecidableEq, Repr

namespace Code

def all : List Code :=
  [syntaxError, unknownOperation, wrongOperandCount, undefinedValue, duplicateValue,
    operandWithoutValue, duplicateLoop, undeclaredLoop, missingPort, portOutsideLoop,
    invalidLayout, unknownElementType, missingOutputType, rankMismatch, loopIdOutOfRange,
    parametersFailed, overrideRejected, verificationFailed, loopWithoutPorts]

def text : Code → String
  | syntaxError => "E0001"
  | unknownOperation => "E0100"
  | wrongOperandCount => "E0101"
  | undefinedValue => "E0102"
  | duplicateValue => "E0103"
  | operandWithoutValue => "E0104"
  | duplicateLoop => "E0105"
  | undeclaredLoop => "E0106"
  | missingPort => "E0107"
  | portOutsideLoop => "E0108"
  | invalidLayout => "E0109"
  | unknownElementType => "E0110"
  | missingOutputType => "E0111"
  | rankMismatch => "E0112"
  | loopIdOutOfRange => "E0113"
  | parametersFailed => "E0200"
  | overrideRejected => "E0201"
  | verificationFailed => "E0600"
  | loopWithoutPorts => "W0100"

def ofText? (s : String) : Option Code := all.find? (·.text == s)

end Code

inductive Level where
  | error
  | warning
  deriving DecidableEq, Repr

def Level.name : Level → String
  | error => "error"
  | warning => "warning"

/-- What is reported to the author of a kernel. -/
structure Diagnostic where
  code : Option Code
  level : Level
  span : Span
  message : String
  hint : Option String
  /-- Other places that matter, each with what it has to do with the matter. -/
  related : List (Located String)
  deriving DecidableEq, Repr

namespace Diagnostic

def isError (d : Diagnostic) : Bool := d.level == .error

/-- The level with the code, the message, and the hint on a line of its own. -/
def text (d : Diagnostic) : String :=
  d.level.name ++
    (match d.code with
      | some code => "[" ++ code.text ++ "]"
      | none => "") ++
    ": " ++ d.message ++
    (match d.hint with
      | some hint => "\n  hint: " ++ hint
      | none => "")

def noteText (position : Position) (label : String) : String :=
  "\n  " ++ position.text ++ ": note: " ++ label

/-- The lines for the related places of a diagnostic. -/
def notes? (source : String) : List (Located String) → Option String
  | [] => some ""
  | note :: rest =>
    match Position.ofOffset? source note.span.start, notes? source rest with
    | some position, some text => some (noteText position note.value ++ text)
    | _, _ => none

/-- The diagnostic with its line and column in front and its related places behind. None of them
may begin inside a character. -/
def render? (d : Diagnostic) (source : String) : Option String :=
  match Position.ofOffset? source d.span.start, notes? source d.related with
  | some position, some notes => some (position.text ++ ": " ++ d.text ++ notes)
  | _, _ => none

end Diagnostic

end TensorLoops
