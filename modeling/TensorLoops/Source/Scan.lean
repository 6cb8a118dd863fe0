import TensorLoops.Source.Span
import TensorLoops.Source.Token

namespace TensorLoops

namespace Source

/-- Space, tab, line feed and carriage return. -/
def isBlank (c : Char) : Bool := c = ' ' || c = '\t' || c = '\n' || c = '\r'

/-- An ASCII letter or an underscore. -/
def startsWord (c : Char) : Bool := c.isAlpha || c = '_'

/-- An ASCII letter, an ASCII digit or an underscore. -/
def inWord (c : Char) : Bool := c.isAlphanum || c = '_'

/-- Whether `c` belongs to the piece that begins with `first`. -/
def continues (first c : Char) : Bool :=
  if isBlank first then isBlank c
  else if first = '#' then c != '\n'
  else if first.isDigit then c.isDigit
  else if startsWord first || first = '%' then inWord c
  else false

inductive PieceKind where
  | gap
  | token (t : Token)
  | bad
  deriving DecidableEq, Repr

/-- A keyword is reserved; any other word is an identifier. -/
def wordToken (word : List Char) : Token :=
  match Keyword.ofText? (.ofList word) with
  | some k => .keyword k
  | none => .ident (.ofList word)

/-- A number has to fit in 64 bits. -/
def numberKind (digits : List Char) : PieceKind :=
  let n := Nat.ofDigitChars 10 digits 0
  if n < UInt64.size then .token (.number (.ofNat n)) else .bad

/-- What the piece with this first character and this rest is. -/
def pieceKind (first : Char) (rest : List Char) : PieceKind :=
  if isBlank first || first = '#' then .gap
  else if first.isDigit then numberKind (first :: rest)
  else if startsWord first then .token (wordToken (first :: rest))
  else if first = '%' then
    if rest.isEmpty then .bad else .token (.value (.ofList rest))
  else
    match Symbol.ofChar? first with
    | some s => .token (.symbol s)
    | none => .bad

/-- A character with the longest run of characters that may follow it. -/
structure Piece where
  kind : PieceKind
  text : List Char
  deriving DecidableEq, Repr

/-- The pieces of a text, in order. -/
def pieces : List Char → List Piece
  | [] => []
  | c :: cs =>
    ⟨pieceKind c (cs.takeWhile (continues c)), c :: cs.takeWhile (continues c)⟩ ::
      pieces (cs.dropWhile (continues c))
termination_by text => text.length
decreasing_by
  exact Nat.lt_succ_of_le (List.dropWhile_suffix _).sublist.length_le

/-- Nothing of the text is lost, and nothing is added. -/
theorem flatten_pieces (text : List Char) : ((pieces text).map Piece.text).flatten = text := by
  fun_induction pieces text with
  | case1 => rfl
  | case2 c cs ih => simp [ih]

/-- The pieces with their places, the first of them at `start`. -/
def place (start : Nat) : List Piece → List (Located Piece)
  | [] => []
  | piece :: rest =>
    let stop := start + byteLength piece.text
    ⟨piece, ⟨start, stop⟩⟩ :: place stop rest

/-- The pieces of a source text with their places. -/
def placedPieces (text : List Char) : List (Located Piece) := place 0 (pieces text)

def tokenOf? (p : Located Piece) : Option (Located Token) :=
  match p.value.kind with
  | .token t => some ⟨t, p.span⟩
  | .gap | .bad => none

def badTextOf? (p : Located Piece) : Option (Located String) :=
  match p.value.kind with
  | .bad => some ⟨.ofList p.value.text, p.span⟩
  | .gap | .token _ => none

end Source

/-- The tokens of a source text and its bad text, each in order. -/
structure Scan where
  tokens : List (Located Token)
  badText : List (Located String)
  deriving DecidableEq, Repr

def scan (source : String) : Scan :=
  let placed := Source.placedPieces source.toList
  ⟨placed.filterMap Source.tokenOf?, placed.filterMap Source.badTextOf?⟩

end TensorLoops
