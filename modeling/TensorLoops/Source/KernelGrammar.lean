import TensorLoops.Source.Grammar
import TensorLoops.Source.Tree

namespace TensorLoops

namespace Source

namespace Grammar

/-- A keyword or a symbol. -/
def exactly (t : Token) : Grammar Unit := .token (.exactly t) fun u => if u = t then some () else none

def keyword (k : Keyword) : Grammar Unit := exactly (.keyword k)

def symbol (s : Symbol) : Grammar Unit := exactly (.symbol s)

def identifier : Grammar String :=
  .token .identifier fun
    | .ident name => some name
    | _ => none

def value : Grammar String :=
  .token .something fun
    | .value name => some name
    | _ => none

def number : Grammar UInt64 :=
  .token .something fun
    | .number n => some n
    | _ => none

def extent : Grammar Extent :=
  .token .something fun
    | .number n => some (.known n)
    | .symbol .question => some .dynamic
    | _ => none

def portKind : Grammar PortKind :=
  .token .something fun
    | .keyword .entry => some .entry
    | .keyword .exit => some .exit
    | _ => none

def direction : Grammar Direction :=
  .token .something fun
    | .keyword .input => some .input
    | .keyword .output => some .output
    | _ => none

/-- Only the value of the second part counts. -/
def skip {α β : Type} (g : Grammar α) (h : Grammar β) : Grammar β := .map Prod.snd (.seq g h)

/-- Only the value of the first part counts. -/
def keep {α β : Type} (g : Grammar α) (h : Grammar β) : Grammar α := .map Prod.fst (.seq g h)

def enclosed {α : Type} (opening closing : Symbol) (g : Grammar α) : Grammar α :=
  skip (symbol opening) (keep g (symbol closing))

/-- A comma-separated list in brackets. -/
def bracketed {α : Type} (g : Grammar α) : Grammar (List α) :=
  enclosed .openBracket .closeBracket (.list g)

def tensorType : Grammar TensorType :=
  .map (fun (element, shape, layout) => { element, shape, layout })
    (.seq (.located identifier)
      (.seq (bracketed (.located extent))
        (.optional (.located (skip (keyword .layout) (bracketed number))))))

/-- A type, after a colon. -/
def typeClause : Grammar (Option (Located TensorType)) :=
  .optional (skip (symbol .colon) (.located tensorType))

def operand : Grammar Operand :=
  .map (fun (value, type) => { value, type }) (.seq (.located value) typeClause)

/-- The loops around an expression; without the clause there are none. -/
def loopsClause : Grammar (List (Located UInt64)) :=
  .map (·.getD []) (.optional (skip (keyword .loops) (bracketed (.located number))))

def expression : Grammar ExpressionDecl :=
  .map (fun (result, operation, operands, output, loops) =>
      { result, operation, operands, output, loops })
    (.seq (.optional (keep (.located value) (symbol .equals)))
      (.seq (.located identifier)
        (.seq (enclosed .openParen .closeParen (.list (.located operand)))
          (.seq typeClause loopsClause))))

def port : Grammar PortDecl :=
  .map (fun (kind, value, direction, index, dim, fixed) =>
      { kind, value, direction, index, dim, fixed := fixed.isSome })
    (.seq portKind
      (.seq (keep (.located value) (symbol .dot))
        (.seq direction
          (.seq (enclosed .openBracket .closeBracket number)
            (.seq (skip (keyword .dim) (.located number)) (.optional (keyword .fixed)))))))

def loop : Grammar LoopDecl :=
  .map (fun (id, workAmount, ports) => { id, workAmount, ports })
    (.seq (skip (keyword .loop) (.located number))
      (.seq (skip (keyword .workAmount) (skip (symbol .equals) (.located extent)))
        (enclosed .openBrace .closeBrace (.many (.located port)))))

def item : Grammar Item :=
  .either (.map .loop (.located loop)) (.map .expression (.located expression))

def items : Grammar (List Item) := .many item

end Grammar

end Source

end TensorLoops
