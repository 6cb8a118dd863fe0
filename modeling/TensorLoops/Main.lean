import TensorLoops.CommandLine.Session

namespace TensorLoops.CommandLine

/-- The operating system's words for the usual failures of file operations. -/
def errorText (e : IO.Error) : String :=
  match e with
  | .noFileOrDirectory .. => "No such file or directory (os error 2)"
  | .permissionDenied _ code _ =>
    (if code = 1 then "Operation not permitted" else "Permission denied") ++ " (os error " ++
      code.toNat.repr ++ ")"
  | .inappropriateType _ 20 _ => "Not a directory (os error 20)"
  | .inappropriateType _ 21 _ => "Is a directory (os error 21)"
  | e => e.toString

/-- A failing action answers with the text of its error. -/
def attemptIO {α : Type} (action : IO α) : IO (Except String α) := do
  try
    return .ok (← action)
  catch e =>
    return .error (errorText e)

/-- Milliseconds with one decimal place. -/
def millisecondsText (nanoseconds : Nat) : String :=
  let tenths := (nanoseconds + 50000) / 100000
  (tenths / 10).repr ++ "." ++ (tenths % 10).repr ++ "ms"

def systemHost : Host IO where
  load path := do
    match ← attemptIO (IO.FS.readBinFile path) with
    | .error reason => return .error reason
    | .ok bytes =>
      match String.fromUTF8? bytes with
      | some text => return .ok text
      | none => return .error "stream did not contain valid UTF-8"
  store path text := attemptIO (IO.FS.writeFile path text)
  timed f := do
    let start ← IO.monoNanosNow
    let value ← IO.lazyPure f
    let stop ← IO.monoNanosNow
    return (value, millisecondsText (stop - start))

end TensorLoops.CommandLine

open TensorLoops.CommandLine in
/-- Runs the program and prints what it leaves. -/
def main (args : List String) : IO UInt32 := do
  let outcome ← call systemHost args
  outcome.stderr.forM IO.eprintln
  IO.print outcome.stdout
  return outcome.exitCode
