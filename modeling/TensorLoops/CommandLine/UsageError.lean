import TensorLoops.CommandLine.Options
import TensorLoops.Text.Bracketed
import TensorLoops.Text.Terminal

namespace TensorLoops.CommandLine

/-- What can be wrong with the arguments of a call. -/
inductive UsageError where
  | invalidAmount (value : String) (e : AmountError)
  | invalidEmit (value : String)
  /-- An option, or the source file, without a value. -/
  | missingValue (name : String) (choices : List String)
  | missingSource (used : List OptionName)
  | unexpectedSource (arg : String)
  | unknownLong (name : String) (used : List OptionName) (hasSource : Bool)
  | unknownShort (letter : Char)
  /-- A flag with a value; whether nothing was given before it. -/
  | unexpectedValue (value : String) (flag : OptionName) (isFirst : Bool)
  | repeated (option : OptionName)
  deriving DecidableEq, Repr

/-- Options in the order in which they came first. -/
def addOnce (options : List OptionName) (option : OptionName) : List OptionName :=
  if options.contains option then options else options ++ [option]

theorem mem_addOnce {options : List OptionName} {option o : OptionName} :
    o ∈ addOnce options option ↔ o ∈ options ∨ o = option := by
  unfold addOnce
  split
  · rename_i found
    have : option ∈ options := by simpa using found
    exact ⟨Or.inl, fun h => h.elim id fun same => same ▸ this⟩
  · simp

/-- No option is there twice. -/
theorem nodup_addOnce {options : List OptionName} (h : options.Nodup) (option : OptionName) :
    (addOnce options option).Nodup := by
  unfold addOnce
  split
  · exact h
  · rename_i new
    have : option ∉ options := by simpa using new
    simp only [List.nodup_append, List.nodup_cons, List.not_mem_nil, not_false_eq_true,
      List.nodup_nil, and_self, h, true_and]
    intro o inside p last same
    rw [List.mem_singleton] at last
    exact this (last ▸ same ▸ inside)

def generalUsage : String := "Usage: loopinit [OPTIONS] <SOURCE>"

/-- The usage line with the options that were given. -/
def usageWith (used : List OptionName) : String :=
  "Usage: loopinit" ++ String.join (used.map fun o => " " ++ o.usage) ++ " <SOURCE>"

/-- The general usage line as long as nothing was given. -/
def usageFor (used : List OptionName) (hasSource : Bool) : String :=
  if used.isEmpty && !hasSource then generalUsage else usageWith used

/-- The usage line with a flag beside all that bears on a compilation. -/
def usageBeside (flag : OptionName) : String :=
  let members := (OptionName.all.filter (·.compiles)).map OptionName.usage
  "Usage: loopinit " ++ (if flag.compiles then "" else flag.usage ++ " ") ++
    "<" ++ "|".intercalate ("SOURCE" :: members) ++ ">"

def choicesLine (choices : List String) : List String :=
  if choices.isEmpty then [] else ["  [possible values: " ++ Text.commaSeparated choices ++ "]"]

/-- What was given, as a message shows it. -/
def quoted (s : String) : String := "'" ++ Text.withoutControls s ++ "'"

/-- A tip that names something similar to what was given. -/
def similarTip (kind name : String) : List String :=
  ["", "  tip: a similar " ++ kind ++ " exists: '" ++ name ++ "'"]

/-- A tip on how to give something with a dash in front as the source file. -/
def dashTip (arg : String) : List String :=
  ["", "  tip: to pass " ++ quoted arg ++ " as a value, use " ++ quoted ("-- " ++ arg)]

namespace UsageError

/-- The lines up to the usage line. -/
def summary : UsageError → List String
  | invalidAmount value _ =>
    ["error: invalid value " ++ quoted value ++ " for '" ++ OptionName.workAmount.usage ++ "'"]
  | invalidEmit value =>
    let choices := OptionName.emit.choices
    ("error: invalid value " ++ quoted value ++ " for '" ++ OptionName.emit.usage ++ "'") ::
      choicesLine choices ++
      match Text.mostSimilar? value choices with
      | some choice => similarTip "value" choice
      | none => []
  | missingValue name choices =>
    ("error: a value is required for '" ++ name ++ "' but none was supplied") ::
      choicesLine choices
  | missingSource _ =>
    ["error: the following required arguments were not provided:", "  <SOURCE>"]
  | unexpectedSource arg => ["error: unexpected argument " ++ quoted arg ++ " found"]
  | unknownLong name _ _ =>
    let arg := "--" ++ name
    ("error: unexpected argument " ++ quoted arg ++ " found") ::
      match OptionName.ofSimilar? name with
      | some option => similarTip "argument" ("--" ++ option.long)
      | none => dashTip arg
  | unknownShort letter =>
    let arg := "-" ++ letter.toString
    ("error: unexpected argument " ++ quoted arg ++ " found") :: dashTip arg
  | unexpectedValue value flag _ =>
    ["error: unexpected value " ++ quoted value ++ " for '" ++ flag.usage ++
      "' found; no more were expected"]
  | repeated option =>
    ["error: the argument '" ++ option.usage ++ "' cannot be used multiple times"]

/-- The usage line, for errors about which arguments there are. A similar option counts as given. -/
def usage? : UsageError → Option String
  | invalidAmount _ _ | invalidEmit _ | missingValue _ _ => none
  | missingSource used => some (usageWith used)
  | unexpectedSource _ | unknownShort _ | repeated _ => some generalUsage
  | unknownLong name used hasSource =>
    match OptionName.ofSimilar? name with
    | some option => some (usageWith (addOnce used option))
    | none => some (usageFor used hasSource)
  | unexpectedValue _ flag isFirst =>
    some (if isFirst then usageWith [flag] else usageBeside flag)

/-- What stands between the summary and the name of the option that helps. Why a number is bad is not
shown as a part of its own: a terminal sequence left open there hides what follows. -/
def middle (e : UsageError) : String :=
  let reason :=
    match e with
    | invalidAmount _ e => ": " ++ e.message
    | e => (e.usage?.map ("\n\n" ++ ·)).getD ""
  Text.withoutControls (reason ++ "\n\nFor more information, try '")

/-- The whole message, without a line break at its end. -/
def text (e : UsageError) : String :=
  "\n".intercalate e.summary ++ e.middle ++ "--help'."

end UsageError

end TensorLoops.CommandLine
