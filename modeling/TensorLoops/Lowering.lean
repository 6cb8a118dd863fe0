import TensorLoops.Lowering.Loops

namespace TensorLoops

/-- A program and the problems met on the way to it. -/
structure Lowered where
  program : Program
  problems : List (Located Problem)
  deriving DecidableEq

namespace Lowered

def diagnostics (l : Lowered) : List Diagnostic := Problem.diagnostics l.problems

def hasErrors (l : Lowered) : Bool := Problem.anyError l.problems

def events (l : Lowered) : List Event :=
  [.lowered l.program.graph.expressions.length l.program.loops.size l.problems.length]

end Lowered

/-- The records of the accepted loops. -/
def Scope.loopTable (s : Scope) (a : Acceptance) : LoopTable :=
  a.accepted.foldl (fun t (loop, decl) => t.insert loop (s.loopRecord loop decl.value)) .empty

/-- Lowers what can be lowered and leaves out the rest. Problems with loop ids come first, then
those of the expressions, then those of the loops' ports. -/
def lower (kernel : Kernel) : Lowered :=
  let loops := Acceptance.ofLoops kernel.loops
  let scope := Scope.ofExpressions loops.ids kernel.expressions
  { program := ⟨scope.graph, scope.loopTable loops⟩
    problems := loops.problems ++ scope.problems ++
      loops.accepted.flatMap fun (loop, decl) => scope.loopProblems loop decl }

/-- Lowers a source text in which nothing is wrong. -/
def lowerSource (source : String) : Except (List (Located ParseError)) Lowered :=
  (readSource source).map lower

end TensorLoops
