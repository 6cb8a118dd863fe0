import TensorLoops.Lowering.Checked

namespace TensorLoops

/-- Loop ids have 32 bits. -/
def loopId? (number : UInt64) : Option LoopId :=
  if number.toNat < UInt32.size then some number.toUInt32 else none

/-- The tensor that a type describes. Without a layout the axes are stored in order. -/
def resolveType (type : Located TensorType) : Checked Descriptor :=
  match ElementType.ofName? type.value.element.value with
  | none =>
    .error [⟨.unknownElementType type.value.element.value, type.value.element.span⟩]
  | some element =>
    let shape := type.value.shape.map Located.value
    match type.value.layout with
    | none => .ok (.dense element shape)
    | some axes =>
      let layout : Layout := axes.value.map UInt64.toNat
      if axes.value.length ≠ shape.length then
        .error [⟨.layoutRank axes.value.length shape.length, axes.span⟩]
      else if layout.isPermutation then .ok { element, shape, layout }
      else .error [⟨.invalidLayout axes.value, axes.span⟩]

/-- An expression whose references have been resolved. -/
structure Resolved where
  operation : Operation
  inputs : List Slot
  output : Option Descriptor
  loops : List LoopId
  deriving DecidableEq, Repr

/-- Where a value is defined. -/
structure Definition where
  expr : ExprId
  span : Span
  deriving DecidableEq, Repr

/-- The expressions lowered so far and the names that they define. -/
structure Scope where
  graph : Graph
  /-- The defined values, the latest first. -/
  definitions : List (String × Definition)
  /-- Names whose definition has failed. -/
  failed : List String
  problems : List (Located Problem)
  deriving DecidableEq, Repr

namespace Scope

def empty : Scope := ⟨.empty, [], [], []⟩

def definition? (s : Scope) (name : String) : Option Definition :=
  (s.definitions.find? (·.1 == name)).map Prod.snd

/-- The result slot of an expression. -/
def resultSlot? (s : Scope) (expr : ExprId) : Option Slot :=
  match s.graph.expression expr with
  | .ok e => e.outputs.head?
  | .error _ => none

/-- An operand is attached to the connector of its producer and has the producer's tensor unless it
is given another type. -/
def resolveOperand (s : Scope) (operand : Located Operand) : Checked Slot :=
  let value := operand.value.value
  match s.definition? value.value with
  | none =>
    if s.failed.contains value.value then .error []
    else .error [⟨.undefinedOperand value.value, value.span⟩]
  | some d =>
    match s.resultSlot? d.expr with
    | none => .error [⟨.operandWithoutValue value.value, value.span⟩]
    | some slot =>
      match operand.value.type with
      | none => .ok slot
      | some type => (resolveType type).map fun descriptor => ⟨descriptor, slot.connector⟩

/-- A loop around an expression has to be declared somewhere in the kernel. -/
def resolveLoop (declared : List LoopId) (number : Located UInt64) : Checked LoopId :=
  match loopId? number.value with
  | some loop =>
    if declared.contains loop then .ok loop
    else .error [⟨.undeclaredLoop number.value, number.span⟩]
  | none => .error [⟨.undeclaredLoop number.value, number.span⟩]

/-- The tensor that an operation produces, if it produces one. -/
def resolveOutput (operation : Operation) (decl : Located ExpressionDecl) :
    Checked (Option Descriptor) :=
  if operation.outputs = 0 then .ok none
  else
    match decl.value.output with
    | none => .error [⟨.missingOutputType operation, decl.span⟩]
    | some type => (resolveType type).map some

/-- An expression must not define a value again. -/
def checkName (s : Scope) : Option (Located String) → Checked Unit
  | none => .ok ()
  | some name =>
    match s.definition? name.value with
    | some d => .error [⟨.duplicateValue name.value d.span, name.span⟩]
    | none => .ok ()

/-- The first problem with the operation, the name, the number of operands or the output hides all
later ones; operands and loops are all checked. -/
def resolve (s : Scope) (declared : List LoopId) (decl : Located ExpressionDecl) :
    Checked Resolved :=
  match Operation.ofName? decl.value.operation.value with
  | none =>
    .error [⟨.unknownOperation decl.value.operation.value, decl.value.operation.span⟩]
  | some operation =>
    match s.checkName decl.value.result with
    | .error ps => .error ps
    | .ok () =>
      if decl.value.operands.length ≠ operation.inputs then
        .error [⟨.wrongOperandCount operation decl.value.operands.length, decl.span⟩]
      else
        match resolveOutput operation decl with
        | .error ps => .error ps
        | .ok output =>
          (Checked.both (.all (decl.value.operands.map s.resolveOperand))
            (.all (decl.value.loops.map (resolveLoop declared)))).map
            fun (inputs, loops) => { operation, inputs, output, loops }

end Scope

namespace Graph

/-- Adds the inputs of expression `id`, from number `index` on, to the consumers of their
connectors. -/
def attach (id : ExprId) (index : Nat) : List Slot → List Connector → List Connector
  | [], connectors => connectors
  | slot :: rest, connectors =>
    attach id (index + 1) rest
      (connectors.modify slot.connector fun c =>
        { c with consumers := c.consumers ++ [⟨id, .input, index⟩] })

/-- Appends an expression; its result gets a connector of its own. -/
def append (g : Graph) (name : Option String) (r : Resolved) : Graph :=
  let id := g.expressions.length
  let connectors := attach id 0 r.inputs g.connectors
  let e : Expression :=
    { id, name, operation := r.operation, loops := r.loops, inputs := r.inputs,
      outputs := r.output.toList.map fun descriptor => ⟨descriptor, connectors.length⟩ }
  { expressions := g.expressions ++ [e]
    connectors := connectors ++ r.output.toList.map fun _ => ⟨⟨id, .output, 0⟩, []⟩ }

end Graph

namespace Scope

/-- The scope after an expression that has been resolved. -/
def define (s : Scope) (result : Option (Located String)) (r : Resolved) : Scope :=
  { s with
    graph := s.graph.append (result.map Located.value) r
    definitions :=
      match result with
      | some name => (name.value, ⟨s.graph.expressions.length, name.span⟩) :: s.definitions
      | none => s.definitions }

/-- The scope after an expression that has problems. A name that is defined already stays so. -/
def reject (s : Scope) (result : Option (Located String)) (ps : List (Located Problem)) : Scope :=
  { s with
    failed :=
      match result with
      | some name =>
        if (s.definition? name.value).isSome then s.failed else name.value :: s.failed
      | none => s.failed
    problems := s.problems ++ ps }

/-- Lowers one more declaration. -/
def add (declared : List LoopId) (s : Scope) (decl : Located ExpressionDecl) : Scope :=
  match s.resolve declared decl with
  | .ok r => s.define decl.value.result r
  | .error ps => s.reject decl.value.result ps

/-- Lowers the expressions of a kernel in order. -/
def ofExpressions (declared : List LoopId) (decls : List (Located ExpressionDecl)) : Scope :=
  decls.foldl (add declared) empty

end Scope

end TensorLoops
