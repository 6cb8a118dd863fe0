namespace TensorLoops

inductive Keyword where
  | loop | workAmount | entry | exit | dim | fixed | loops | layout | input | output
  deriving DecidableEq, Repr

namespace Keyword

def all : List Keyword :=
  [loop, workAmount, entry, exit, dim, fixed, loops, layout, input, output]

def text : Keyword → String
  | loop => "loop"
  | workAmount => "work_amount"
  | entry => "entry"
  | exit => "exit"
  | dim => "dim"
  | fixed => "fixed"
  | loops => "loops"
  | layout => "layout"
  | input => "in"
  | output => "out"

def ofText? (s : String) : Option Keyword := all.find? (·.text == s)

theorem ofText?_text (k : Keyword) : ofText? k.text = some k := by cases k <;> rfl

theorem text_of_ofText? {s : String} {k : Keyword} (h : ofText? s = some k) : k.text = s := by
  simpa using List.find?_some h

end Keyword

inductive Symbol where
  | equals | colon | question | dot | comma
  | openParen | closeParen | openBracket | closeBracket | openBrace | closeBrace
  deriving DecidableEq, Repr

namespace Symbol

def all : List Symbol :=
  [equals, colon, question, dot, comma, openParen, closeParen, openBracket, closeBracket,
    openBrace, closeBrace]

def char : Symbol → Char
  | equals => '='
  | colon => ':'
  | question => '?'
  | dot => '.'
  | comma => ','
  | openParen => '('
  | closeParen => ')'
  | openBracket => '['
  | closeBracket => ']'
  | openBrace => '\x7b'
  | closeBrace => '\x7d'

def ofChar? (c : Char) : Option Symbol := all.find? (·.char == c)

theorem ofChar?_char (s : Symbol) : ofChar? s.char = some s := by cases s <;> rfl

theorem char_of_ofChar? {c : Char} {s : Symbol} (h : ofChar? c = some s) : s.char = c := by
  simpa using List.find?_some h

end Symbol

inductive Token where
  | keyword (k : Keyword)
  | symbol (s : Symbol)
  | number (n : UInt64)
  /-- A value is written with a `%` in front of its name. -/
  | value (name : String)
  | ident (name : String)
  deriving DecidableEq, Repr

namespace Token

/-- How the token is written. -/
def text : Token → String
  | keyword k => k.text
  | symbol s => s.char.toString
  | number n => n.toNat.repr
  | value name => "%" ++ name
  | ident name => name

/-- How the token is called in messages: all identifiers are called the same. -/
def display : Token → String
  | ident _ => "<ident>"
  | token => token.text

end Token

end TensorLoops
