import TensorLoops.Text.Quoted
import TensorLoops.Source.Scan
import TensorLoops.Source.KernelGrammar

namespace TensorLoops

namespace Source

def Expected.text : Expected → String
  | exactly t => "'" ++ t.display ++ "'"
  | identifier => "'<ident>'"
  | something => "something else"
  | endOfInput => "end of input"

/-- Alternatives, with a comma before each but the first and an `or` before the last. -/
def alternatives : List String → String
  | [] => ""
  | [s] => s
  | [s, t] => s ++ ", or " ++ t
  | s :: rest => s ++ ", " ++ alternatives rest

end Source

open Source

/-- What is wrong with a source text. -/
inductive ParseError where
  | badText (text : String)
  /-- The token found, if it is not the end of the text, and what could have come instead. -/
  | unexpected (found : Option Token) (expected : List Expected)
  deriving DecidableEq, Repr

namespace ParseError

def foundText : Option Token → String
  | some t => "'" ++ t.display ++ "'"
  | none => "end of input"

def message : ParseError → String
  | badText text => "unexpected input: " ++ Text.quoted text
  | unexpected found expected =>
    "found " ++ foundText found ++ " expected " ++ alternatives (expected.map Expected.text)

end ParseError

/-- The outcome of parsing. -/
structure Parse where
  kernel : Option Kernel
  errors : List (Located ParseError)
  deriving DecidableEq, Repr

namespace Source

/-- The place of a whole kernel in a text of `length` bytes. -/
def kernelSpan (length : Nat) (tokens : Tokens) : Span :=
  if tokens.isEmpty then .point length else cover tokens

/-- The error at the first of the tokens that are left, or at the end of the text. -/
def unexpectedAt (length : Nat) (rest : Tokens) (expected : List Expected) : Located ParseError :=
  match rest with
  | t :: _ => ⟨.unexpected (some t.value) expected, t.span⟩
  | [] => ⟨.unexpected none expected, .point length⟩

/-- Reads all tokens of a text of `length` bytes. -/
def readKernel (length : Nat) (tokens : Tokens) : Except (Located ParseError) Kernel :=
  match Grammar.items.reader [] tokens with
  | .read items _ [] _ => .ok ⟨items, kernelSpan length tokens⟩
  | .read _ _ rest tried => .error (unexpectedAt length rest (tried ++ [.endOfInput]))
  | .stuck _ rest tried => .error (unexpectedAt length rest tried)

end Source

/-- Bad text is left out. Of the other tokens, only the first one that cannot go on with a kernel is
reported; without such an error there is a kernel. -/
def parse (source : String) : Parse :=
  let scan := scan source
  let badText := scan.badText.map fun bad => bad.map ParseError.badText
  match readKernel source.utf8ByteSize scan.tokens with
  | .ok kernel => ⟨some kernel, badText⟩
  | .error e => ⟨none, badText ++ [e]⟩

/-- The kernel of a source text in which nothing is wrong. -/
def readSource (source : String) : Except (List (Located ParseError)) Kernel :=
  match parse source with
  | ⟨some kernel, []⟩ => .ok kernel
  | ⟨_, errors⟩ => .error errors

end TensorLoops
