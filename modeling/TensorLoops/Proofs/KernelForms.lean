import TensorLoops.Proofs.Forms
import TensorLoops.Source.KernelGrammar

namespace TensorLoops

namespace Source

namespace Form

def keyword (k : Keyword) : Form := .terminal (.keyword k)

def symbol (s : Symbol) : Form := .terminal (.symbol s)

def number : Form := .terminal .number

def value : Form := .terminal .value

def ident : Form := .terminal .ident

def enclosed (opening closing : Symbol) (f : Form) : Form :=
  .seq (symbol opening) (.seq f (symbol closing))

def brackets (f : Form) : Form := enclosed .openBracket .closeBracket f

/-- A number or `?`. -/
def dim : Form := .alt number (symbol .question)

/-- The rule `ident [ dim,* ] (layout [ number,* ])?`. -/
def tensor : Form :=
  .seq ident (.seq (brackets (.list dim)) (.opt (.seq (keyword .layout) (brackets (.list number)))))

/-- A tensor after a colon, or nothing. -/
def typed : Form := .opt (.seq (symbol .colon) tensor)

/-- The rule `value (: tensor)?`. -/
def operand : Form := .seq value typed

/-- The rule `(value =)? ident ( operand,* ) (: tensor)? (loops [ number,* ])?`. -/
def expression : Form :=
  .seq (.opt (.seq value (symbol .equals)))
    (.seq ident
      (.seq (enclosed .openParen .closeParen (.list operand))
        (.seq typed (.opt (.seq (keyword .loops) (brackets (.list number)))))))

/-- The rule `(entry | exit) value . (in | out) [ number ] dim number fixed?`. -/
def port : Form :=
  .seq (.alt (keyword .entry) (keyword .exit))
    (.seq (.seq value (symbol .dot))
      (.seq (.alt (keyword .input) (keyword .output))
        (.seq (brackets number) (.seq (.seq (keyword .dim) number) (.opt (keyword .fixed))))))

/-- The rule `loop number work_amount = dim { port* }`. -/
def loop : Form :=
  .seq (.seq (keyword .loop) number)
    (.seq (.seq (keyword .workAmount) (.seq (symbol .equals) dim))
      (enclosed .openBrace .closeBrace (.star port)))

def item : Form := .alt loop expression

def kernel : Form := .star item

/-- One token decides how to go on in a kernel. -/
theorem predictive_kernel : kernel.Predictive := by decide

def numberOf : number.Tree → UInt64
  | ⟨⟨.number n, _⟩, _⟩ => n

def valueOf : value.Tree → String
  | ⟨⟨.value name, _⟩, _⟩ => name

def identOf : ident.Tree → String
  | ⟨⟨.ident name, _⟩, _⟩ => name

/-- What a tree denotes, with the place of its tokens. -/
def located {α : Type} (f : Form) (value : f.Tree → α) (t : f.Tree) : Located α :=
  ⟨value t, cover (f.tokens t)⟩

def dimOf : dim.Tree → Extent
  | .inl n => .known (numberOf n)
  | .inr _ => .dynamic

def layoutOf : (Form.seq (keyword .layout) (brackets (.list number))).Tree → List UInt64
  | (_, _, axes, _) => (elements axes).map numberOf

def tensorOf : tensor.Tree → TensorType
  | (element, (_, shape, _), layout) =>
    { element := located ident identOf element
      shape := (elements shape).map (located dim dimOf)
      layout := layout.map (located _ layoutOf) }

def typedOf : typed.Tree → Option (Located TensorType) :=
  Option.map fun (_, t) => located tensor tensorOf t

def operandOf : operand.Tree → Operand
  | (name, type) => { value := located value valueOf name, type := typedOf type }

def loopsOf : (Form.opt (.seq (keyword .loops) (brackets (.list number)))).Tree →
    List (Located UInt64)
  | none => []
  | some (_, _, loops, _) => (elements loops).map (located number numberOf)

def expressionOf : expression.Tree → ExpressionDecl
  | (result, operation, (_, operands, _), output, loops) =>
    { result := result.map fun (name, _) => located value valueOf name
      operation := located ident identOf operation
      operands := (elements operands).map (located operand operandOf)
      output := typedOf output
      loops := loopsOf loops }

def portKindOf : (Form.alt (keyword .entry) (keyword .exit)).Tree → PortKind
  | .inl _ => .entry
  | .inr _ => .exit

def directionOf : (Form.alt (keyword .input) (keyword .output)).Tree → Direction
  | .inl _ => .input
  | .inr _ => .output

def portOf : port.Tree → PortDecl
  | (kind, (name, _), direction, (_, index, _), (_, dim), fixed) =>
    { kind := portKindOf kind
      value := located value valueOf name
      direction := directionOf direction
      index := numberOf index
      dim := located number numberOf dim
      fixed := fixed.isSome }

def loopOf : loop.Tree → LoopDecl
  | ((_, id), (_, _, amount), (_, ports, _)) =>
    { id := located number numberOf id
      workAmount := located dim dimOf amount
      ports := ports.map (located port portOf) }

def itemOf : item.Tree → Item
  | .inl t => .loop (located loop loopOf t)
  | .inr t => .expression (located expression expressionOf t)

/-- The items of a kernel, in order. -/
def itemsOf : kernel.Tree → List Item := List.map itemOf

end Form

end Source

end TensorLoops
