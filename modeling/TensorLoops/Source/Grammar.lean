import TensorLoops.Source.Span
import TensorLoops.Source.Token

namespace TensorLoops

namespace Source

/-- What could come at a place, as messages call it. -/
inductive Expected where
  | exactly (t : Token)
  | identifier
  /-- One of several tokens, or a token with content. -/
  | something
  | endOfInput
  deriving DecidableEq, Repr

abbrev Tokens := List (Located Token)

/-- From the start of the first token to the end of the last one. -/
def cover : Tokens → Span
  | [] => .point 0
  | t :: rest => ⟨t.span.start, ((t :: rest).getLast (List.cons_ne_nil t rest)).span.stop⟩

/-- A grammar for token sequences that denote values of a type. -/
inductive Grammar : Type → Type 1 where
  /-- One token. -/
  | token {α : Type} (expected : Expected) (accept : Token → Option α) : Grammar α
  /-- One after the other. -/
  | seq {α β : Type} (g : Grammar α) (h : Grammar β) : Grammar (α × β)
  /-- One of two. -/
  | either {α : Type} (g h : Grammar α) : Grammar α
  | optional {α : Type} (g : Grammar α) : Grammar (Option α)
  /-- Any number of times. -/
  | many {α : Type} (g : Grammar α) : Grammar (List α)
  /-- Any number of times with commas in between; one more comma may follow the last. -/
  | list {α : Type} (g : Grammar α) : Grammar (List α)
  | map {α β : Type} (f : α → β) (g : Grammar α) : Grammar β
  /-- The value together with the place of its tokens. -/
  | located {α : Type} (g : Grammar α) : Grammar (Located α)

/-- Sequences that `derives` element by element. -/
inductive Repeated {α : Type} (derives : Tokens → α → Prop) : Tokens → List α → Prop where
  | nil : Repeated derives [] []
  | cons {ts us : Tokens} {a : α} {as : List α} (head : derives ts a)
      (tail : Repeated derives us as) : Repeated derives (ts ++ us) (a :: as)

/-- Sequences that `derives` element by element, with commas in between and at most one after the
last element. -/
inductive Listed {α : Type} (derives : Tokens → α → Prop) : Tokens → List α → Prop where
  | nil : Listed derives [] []
  | last {ts : Tokens} {a : α} (head : derives ts a) : Listed derives ts [a]
  | cons {ts us : Tokens} {comma : Located Token} {a : α} {as : List α} (head : derives ts a)
      (separator : comma.value = .symbol .comma) (tail : Listed derives us as) :
      Listed derives (ts ++ comma :: us) (a :: as)

/-- The token sequences of a grammar and what they denote. -/
def Grammar.Derives : {α : Type} → Grammar α → Tokens → α → Prop
  | _, .token _ accept, ts, a => ∃ t, ts = [t] ∧ accept t.value = some a
  | _, .seq g h, ts, (a, b) => ∃ us vs, ts = us ++ vs ∧ g.Derives us a ∧ h.Derives vs b
  | _, .either g h, ts, a => g.Derives ts a ∨ h.Derives ts a
  | _, .optional _, ts, none => ts = []
  | _, .optional g, ts, some a => g.Derives ts a
  | _, .many g, ts, as => Repeated g.Derives ts as
  | _, .list g, ts, as => Listed g.Derives ts as
  | _, .map f g, ts, b => ∃ a, g.Derives ts a ∧ f a = b
  | _, .located g, ts, l => g.Derives ts l.value ∧ l.span = cover ts

/-- The outcome of reading: what was taken and what is left. `tried` is what could have come at the
place where reading stands. -/
inductive Reading (α : Type) where
  | read (value : α) (taken rest : Tokens) (tried : List Expected)
  | stuck (taken rest : Tokens) (tried : List Expected)

namespace Reading

variable {α β : Type}

/-- Puts what was taken before in front. -/
def following (before : Tokens) (f : α → β) : Reading α → Reading β
  | read a taken rest tried => read (f a) (before ++ taken) rest tried
  | stuck taken rest tried => stuck (before ++ taken) rest tried

def map (f : α → β) : Reading α → Reading β
  | read a taken rest tried => read (f a) taken rest tried
  | stuck taken rest tried => stuck taken rest tried

end Reading

/-- Reads from the front of a token sequence, given what was tried there before. -/
abbrev Reader (α : Type) := List Expected → Tokens → Reading α

namespace Reader

variable {α β : Type}

def token (expected : Expected) (accept : Token → Option α) : Reader α
  | tried, [] => .stuck [] [] (tried ++ [expected])
  | tried, t :: rest =>
    match accept t.value with
    | some a => .read a [t] rest []
    | none => .stuck [] (t :: rest) (tried ++ [expected])

def seq (r : Reader α) (s : Reader β) : Reader (α × β) := fun tried ts =>
  match r tried ts with
  | .read a taken rest tried => (s tried rest).following taken (a, ·)
  | .stuck taken rest tried => .stuck taken rest tried

/-- The second alternative is read only if the first one has not taken anything. -/
def either (r s : Reader α) : Reader α := fun tried ts =>
  match r tried ts with
  | .read a taken rest tried => .read a taken rest tried
  | .stuck [] _ tried => s tried ts
  | .stuck taken rest tried => .stuck taken rest tried

def optional (r : Reader α) : Reader (Option α) := fun tried ts =>
  match r tried ts with
  | .read a taken rest tried => .read (some a) taken rest tried
  | .stuck [] _ tried => .read none [] ts tried
  | .stuck taken rest tried => .stuck taken rest tried

/-- An element that takes no token ends the sequence. -/
def many (r : Reader α) (tried : List Expected) (ts : Tokens) : Reading (List α) :=
  match r tried ts with
  | .read a taken rest tried =>
    if rest.length < ts.length then (many r tried rest).following taken (a :: ·)
    else .read [] [] ts tried
  | .stuck [] _ tried => .read [] [] ts tried
  | .stuck taken rest tried => .stuck taken rest tried
termination_by ts.length

def comma : Reader Unit :=
  token (.exactly (.symbol .comma)) fun t => if t = .symbol .comma then some () else none

/-- After an element there is a comma, or the list ends; after a comma there is an element, or the
list ends. -/
def list (r : Reader α) (tried : List Expected) (ts : Tokens) : Reading (List α) :=
  match r tried ts with
  | .read a taken rest tried =>
    match comma tried rest with
    | .read () separator rest tried =>
      if rest.length < ts.length then
        (list r tried rest).following (taken ++ separator) (a :: ·)
      else .read [] [] ts tried
    | .stuck _ _ tried => .read [a] taken rest tried
  | .stuck [] _ tried => .read [] [] ts tried
  | .stuck taken rest tried => .stuck taken rest tried
termination_by ts.length

def map (f : α → β) (r : Reader α) : Reader β := fun tried ts => (r tried ts).map f

def located (r : Reader α) : Reader (Located α) := fun tried ts =>
  match r tried ts with
  | .read a taken rest tried => .read ⟨a, cover taken⟩ taken rest tried
  | .stuck taken rest tried => .stuck taken rest tried

end Reader

/-- Reading by a grammar: it looks at one token at a time, takes the first alternative that can
begin with that token, and never goes back. -/
def Grammar.reader : {α : Type} → Grammar α → Reader α
  | _, .token expected accept => .token expected accept
  | _, .seq g h => .seq g.reader h.reader
  | _, .either g h => .either g.reader h.reader
  | _, .optional g => .optional g.reader
  | _, .many g => .many g.reader
  | _, .list g => .list g.reader
  | _, .map f g => .map f g.reader
  | _, .located g => .located g.reader

end Source

end TensorLoops
