import TensorLoops.Diagnostic
import TensorLoops.Attempt
import TensorLoops.Source.Parse

namespace TensorLoops

/-- What can be wrong with a kernel, cause by cause. -/
inductive Problem where
  | unreadable (e : ParseError)
  | unknownOperation (name : String)
  | wrongOperandCount (operation : Operation) (given : Nat)
  | undefinedOperand (name : String)
  | undefinedPortValue (name : String)
  | duplicateValue (name : String) (first : Span)
  | operandWithoutValue (name : String)
  | duplicateLoop (loop : LoopId) (first : Span)
  | undeclaredLoop (number : UInt64)
  | missingPort (name : String) (direction : Direction) (index : UInt64)
  | portOutsideLoop (name : String) (loop : LoopId)
  | invalidLayout (axes : List UInt64)
  | unknownElementType (name : String)
  | missingOutputType (operation : Operation)
  | layoutRank (axes rank : Nat)
  | dimOutOfRange (name : String) (dim : UInt64) (rank : Nat)
  | loopIdOutOfRange (number : UInt64)
  | loopWithoutPorts (loop : LoopId)
  | parametersFailed (e : LoopError)
  | overrideRejected (e : LoopError)
  | verificationFailed (obligations : List String)
  deriving DecidableEq, Repr

namespace Problem

def code : Problem → Code
  | unreadable _ => .syntaxError
  | unknownOperation _ => .unknownOperation
  | wrongOperandCount .. => .wrongOperandCount
  | undefinedOperand _ | undefinedPortValue _ => .undefinedValue
  | duplicateValue .. => .duplicateValue
  | operandWithoutValue _ => .operandWithoutValue
  | duplicateLoop .. => .duplicateLoop
  | undeclaredLoop _ => .undeclaredLoop
  | missingPort .. => .missingPort
  | portOutsideLoop .. => .portOutsideLoop
  | invalidLayout _ => .invalidLayout
  | unknownElementType _ => .unknownElementType
  | missingOutputType _ => .missingOutputType
  | layoutRank .. | dimOutOfRange .. => .rankMismatch
  | loopIdOutOfRange _ => .loopIdOutOfRange
  | loopWithoutPorts _ => .loopWithoutPorts
  | parametersFailed _ => .parametersFailed
  | overrideRejected _ => .overrideRejected
  | verificationFailed _ => .verificationFailed

/-- A loop without ports is odd; everything else is an error. -/
def level : Problem → Level
  | loopWithoutPorts _ => .warning
  | _ => .error

def quotedName (name : String) : String := "`" ++ name ++ "`"

def quotedValue (name : String) : String := "`%" ++ name ++ "`"

def message : Problem → String
  | unreadable e => e.message
  | unknownOperation name => "unknown operation " ++ quotedName name
  | wrongOperandCount operation given =>
    quotedName operation.name ++ " takes " ++ operation.inputs.repr ++ " operand(s) but " ++
      given.repr ++ " were given"
  | undefinedOperand name | undefinedPortValue name => "undefined value " ++ quotedValue name
  | duplicateValue name _ => "value " ++ quotedValue name ++ " is defined twice"
  | operandWithoutValue name => quotedValue name ++ " produces no value"
  | duplicateLoop loop _ => "loop " ++ loopText loop ++ " is declared twice"
  | undeclaredLoop number => "loop " ++ number.toNat.repr ++ " is not declared"
  | missingPort name direction index =>
    quotedValue name ++ " has no port `" ++ direction.keyword ++ "[" ++ index.toNat.repr ++ "]`"
  | portOutsideLoop name loop =>
    quotedValue name ++ " is not enclosed by loop " ++ loopText loop
  | invalidLayout axes =>
    "layout " ++ Text.bracketed (axes.map (·.toNat.repr)) ++ " is not a permutation of 0.." ++
      axes.length.repr
  | unknownElementType name => "unknown element type " ++ quotedName name
  | missingOutputType operation => quotedName operation.name ++ " needs an output type"
  | layoutRank axes rank =>
    "layout has " ++ axes.repr ++ " axes but the shape has rank " ++ rank.repr
  | dimOutOfRange name dim rank =>
    "dim " ++ dim.toNat.repr ++ " is out of range for a rank-" ++ rank.repr ++ " port of " ++
      quotedValue name
  | loopIdOutOfRange number => "loop id " ++ number.toNat.repr ++ " is out of range"
  | loopWithoutPorts loop => "loop " ++ loopText loop ++ " has no entry or exit ports"
  | parametersFailed e => "loop initialization failed: " ++ e.message
  | overrideRejected e => "cannot override work amount: " ++ e.message
  | verificationFailed obligations =>
    "loop verification failed: " ++ Text.commaSeparated obligations

def hint : Problem → Option String
  | missingOutputType _ => some "append `: <type>[<shape>]` after the operand list"
  | undefinedOperand _ => some "values must be defined before they are used"
  | unknownElementType _ =>
    some ("expected one of: " ++ Text.commaSeparated (ElementType.all.map ElementType.name))
  | portOutsideLoop name loop =>
    some ("add " ++ loopText loop ++ " to the `loops [...]` list of " ++ quotedValue name)
  | _ => none

def related : Problem → List (Located String)
  | duplicateValue _ first => [⟨"first defined here", first⟩]
  | duplicateLoop _ first => [⟨"first declared here", first⟩]
  | _ => []

/-- The diagnostic for a problem at a place. -/
def diagnostic (p : Located Problem) : Diagnostic where
  code := some p.value.code
  level := p.value.level
  span := p.span
  message := p.value.message
  hint := p.value.hint
  related := p.value.related

def diagnostics (ps : List (Located Problem)) : List Diagnostic := ps.map diagnostic

/-- The problems of a source text that cannot be read. -/
def ofParse (errors : List (Located ParseError)) : List (Located Problem) :=
  errors.map fun e => e.map unreadable

/-- Whether an error is among the problems. -/
def anyError (ps : List (Located Problem)) : Bool := ps.any (·.value.level == .error)

end Problem

end TensorLoops
