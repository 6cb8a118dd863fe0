import TensorLoops.Lowering.Expressions

namespace TensorLoops

/-- The loop declarations whose ids can be used, in order. -/
structure Acceptance where
  accepted : List (LoopId × Located LoopDecl)
  problems : List (Located Problem)
  deriving DecidableEq, Repr

namespace Acceptance

def empty : Acceptance := ⟨[], []⟩

def ids (a : Acceptance) : List LoopId := a.accepted.map Prod.fst

def first? (a : Acceptance) (loop : LoopId) : Option (Located LoopDecl) :=
  (a.accepted.find? (·.1 == loop)).map Prod.snd

/-- A declaration is accepted if its id is in range and not taken. -/
def add (a : Acceptance) (decl : Located LoopDecl) : Acceptance :=
  let id := decl.value.id
  match loopId? id.value with
  | none => { a with problems := a.problems ++ [⟨.loopIdOutOfRange id.value, id.span⟩] }
  | some loop =>
    match a.first? loop with
    | some first => { a with problems := a.problems ++ [⟨.duplicateLoop loop first.span, id.span⟩] }
    | none => { a with accepted := a.accepted ++ [(loop, decl)] }

def ofLoops (decls : List (Located LoopDecl)) : Acceptance := decls.foldl add empty

end Acceptance

namespace Scope

/-- Whether an expression lies inside a loop. -/
def encloses (s : Scope) (loop : LoopId) (expr : ExprId) : Bool :=
  match s.graph.expression expr with
  | .ok e => e.loops.contains loop
  | .error _ => false

/-- A port has to belong to an expression inside the loop, and its axis has to exist. -/
def resolvePort (s : Scope) (loop : LoopId) (decl : Located PortDecl) : Checked LoopPort :=
  let value := decl.value.value
  match s.definition? value.value with
  | none =>
    if s.failed.contains value.value then .error []
    else .error [⟨.undefinedPortValue value.value, value.span⟩]
  | some d =>
    let port : Port := ⟨d.expr, decl.value.direction, decl.value.index.toNat⟩
    match s.graph.descriptor port with
    | .error _ =>
      .error [⟨.missingPort value.value decl.value.direction decl.value.index, decl.span⟩]
    | .ok descriptor =>
      let rank := descriptor.shape.length
      let dim := decl.value.dim
      if !s.encloses loop d.expr then
        .error [⟨.portOutsideLoop value.value loop, decl.span⟩]
      else if dim.value.toNat < rank then
        let moving := LoopPort.moving port dim.value.toNat
        .ok (if decl.value.fixed then moving.fixed else moving)
      else .error [⟨.dimOutOfRange value.value dim.value rank, dim.span⟩]

/-- The ports of one kind that can be resolved. -/
def portsOfKind (s : Scope) (loop : LoopId) (kind : PortKind) (decls : List (Located PortDecl)) :
    List LoopPort :=
  Checked.values ((decls.filter (·.value.kind == kind)).map (s.resolvePort loop))

def loopRecord (s : Scope) (loop : LoopId) (decl : LoopDecl) : LoopRecord where
  workAmount := decl.workAmount.value
  entries := s.portsOfKind loop .entry decl.ports
  exits := s.portsOfKind loop .exit decl.ports

def loopProblems (s : Scope) (loop : LoopId) (decl : Located LoopDecl) :
    List (Located Problem) :=
  decl.value.ports.flatMap (fun port => (s.resolvePort loop port).problems) ++
    if decl.value.ports.isEmpty then [⟨.loopWithoutPorts loop, decl.span⟩] else []

end Scope

end TensorLoops
