import TensorLoops.Source.Span

namespace TensorLoops

/-- Lines and columns count from one, and columns count bytes. -/
structure Position where
  line : Nat
  column : Nat
  deriving DecidableEq, Repr

namespace Position

def start : Position := ⟨1, 1⟩

/-- The position after a character. -/
def next (p : Position) (c : Char) : Position :=
  if c = '\n' then ⟨p.line + 1, 1⟩ else ⟨p.line, p.column + c.utf8Size⟩

def text (p : Position) : String := p.line.repr ++ ":" ++ p.column.repr

/-- The position `offset` bytes further on, or that of the end of the text if it is shorter. There
is none inside a character. -/
def advance? (p : Position) (offset : Nat) : List Char → Option Position
  | [] => some p
  | c :: rest =>
    if offset = 0 then some p
    else if offset < c.utf8Size then none
    else (p.next c).advance? (offset - c.utf8Size) rest

/-- The position of a byte of a source text. -/
def ofOffset? (source : String) (offset : Nat) : Option Position :=
  start.advance? offset source.toList

end Position

end TensorLoops
