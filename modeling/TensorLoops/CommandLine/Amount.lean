import TensorLoops.Compilation
import TensorLoops.Text.Blank
import TensorLoops.Text.Decimal

namespace TensorLoops.CommandLine

inductive AmountError where
  | noEquals (text : String)
  | loopId (text : String) (e : Text.NumberError)
  | amount (text : String) (e : Text.NumberError)
  deriving DecidableEq, Repr

def AmountError.message : AmountError → String
  | noEquals text => "expected LOOP=N, got `" ++ text ++ "`"
  | loopId text e => "bad loop id `" ++ text ++ "`: " ++ e.message
  | amount text e => "bad work amount `" ++ text ++ "`: " ++ e.message

/-- The parts before and after the first `=`. -/
def splitEquals? (s : List Char) : Option (List Char × List Char) :=
  match s.dropWhile (· != '=') with
  | [] => none
  | _ :: rest => some (s.takeWhile (· != '='), rest)

/-- A number of iterations in the form `LOOP=N`. Blanks around the two numbers do not count. -/
def readAmount (arg : String) : Except AmountError (LoopId × UInt64) :=
  match splitEquals? arg.toList with
  | none => .error (.noEquals arg)
  | some (id, n) =>
    match Text.readDecimal UInt32.size (Text.trim id) with
    | .error e => .error (.loopId (.ofList id) e)
    | .ok loop =>
      match Text.readDecimal UInt64.size (Text.trim n) with
      | .error e => .error (.amount (.ofList n) e)
      | .ok amount => .ok (.ofNat loop, .ofNat amount)

end TensorLoops.CommandLine
