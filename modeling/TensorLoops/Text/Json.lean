import TensorLoops.Text.Integer

namespace TensorLoops.Text

inductive Json where
  | null
  | bool (b : Bool)
  | number (n : Int)
  | string (s : String)
  | array (items : List Json)
  | object (fields : List (String × Json))

namespace Json

/-- A code point below 32, in four hexadecimal digits. -/
def controlEscape (c : Char) : List Char :=
  ['\\', 'u', '0', '0', Nat.digitChar (c.toNat / 16), Nat.digitChar (c.toNat % 16)]

/-- Quotes, backslashes and controls are escaped, everything else stands for itself. -/
def escape (c : Char) : List Char :=
  match c with
  | '"' => ['\\', '"']
  | '\\' => ['\\', '\\']
  | '\x08' => ['\\', 'b']
  | '\x0c' => ['\\', 'f']
  | '\n' => ['\\', 'n']
  | '\r' => ['\\', 'r']
  | '\t' => ['\\', 't']
  | c => if c.toNat < 32 then controlEscape c else [c]

def stringText (s : String) : List Char := '"' :: s.toList.flatMap escape ++ ['"']

/-- A line break and the indentation of a level. -/
def newLine (depth : Nat) : List Char := '\n' :: List.replicate (2 * depth) ' '

/-- Parts on lines of their own, one level deeper than the closing sign. -/
def block (opening closing : Char) (depth : Nat) : List (List Char) → List Char
  | [] => [opening, closing]
  | part :: rest =>
    opening :: newLine (depth + 1) ++ part ++
      rest.flatMap (fun part => ',' :: newLine (depth + 1) ++ part) ++ newLine depth ++ [closing]

mutual

/-- The text of a document at a level. -/
def textAt (depth : Nat) : Json → List Char
  | null => "null".toList
  | bool true => "true".toList
  | bool false => "false".toList
  | number n => (integer n).toList
  | string s => stringText s
  | array items => block '[' ']' depth (itemTexts (depth + 1) items)
  | object fields => block '\x7b' '\x7d' depth (fieldTexts (depth + 1) fields)

def itemTexts (depth : Nat) : List Json → List (List Char)
  | [] => []
  | item :: rest => textAt depth item :: itemTexts depth rest

def fieldTexts (depth : Nat) : List (String × Json) → List (List Char)
  | [] => []
  | (key, value) :: rest =>
    (stringText key ++ ": ".toList ++ textAt depth value) :: fieldTexts depth rest

end

/-- The written form over several lines, without a line break at the end. Empty arrays and objects
stay on one line. -/
def text (j : Json) : String := .ofList (j.textAt 0)

end Json

end TensorLoops.Text
