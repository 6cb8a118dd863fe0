import TensorLoops.Event

namespace TensorLoops

/-- Why the parameters of a loop cannot be computed. -/
inductive LoopError where
  | lookup (e : LookupError)
  | outsideLoops (loop : LoopId) (label : String)
  | incompatible (loop : LoopId) (lhs rhs : Extent)
  | missingLoop (loop : LoopId)
  deriving DecidableEq, Repr

def LoopError.message : LoopError → String
  | lookup e => e.message
  | outsideLoops loop label =>
    "loop " ++ loopText loop ++ ": port expression " ++ label ++ " is not enclosed by any loop"
  | incompatible loop lhs rhs =>
    "loop " ++ loopText loop ++ ": port extents " ++ lhs.text ++ " and " ++ rhs.text ++
      " cannot be broadcast together"
  | missingLoop loop => "loop " ++ loopText loop ++ " does not exist"

/-- A run that may stop in the middle: the state reached, also when it fails, the outcome, and what
was reported on the way. -/
structure Attempt (σ α : Type) where
  state : σ
  result : Except LoopError α
  events : List Event

namespace Attempt

variable {σ τ α β : Type}

def fail (state : σ) (e : LoopError) (events : List Event) : Attempt σ α :=
  ⟨state, .error e, events⟩

def done (state : σ) (a : α) (events : List Event) : Attempt σ α := ⟨state, .ok a, events⟩

/-- What was reported before the attempt comes first. -/
def after (events : List Event) (a : Attempt σ α) : Attempt σ α :=
  { a with events := events ++ a.events }

def mapState (f : σ → τ) (a : Attempt σ α) : Attempt τ α := ⟨f a.state, a.result, a.events⟩

def withResult (a : Attempt σ α) (b : β) : Attempt σ β :=
  ⟨a.state, a.result.map fun _ => b, a.events⟩

/-- Goes on from the state of a successful attempt. -/
def andThen (a : Attempt σ Unit) (f : σ → Attempt σ α) : Attempt σ α :=
  match a.result with
  | .ok () => (f a.state).after a.events
  | .error e => ⟨a.state, .error e, a.events⟩

/-- Treats the elements one after the other and leaves those after the first failure alone. -/
def each (f : σ → Attempt σ Unit) : List σ → Attempt (List σ) Unit
  | [] => done [] () []
  | x :: xs =>
    match (f x).result with
    | .ok () => ((each f xs).mapState ((f x).state :: ·)).after (f x).events
    | .error e => ⟨(f x).state :: xs, .error e, (f x).events⟩

theorem map_each_state (f : σ → Attempt σ Unit) (g : σ → τ) (h : ∀ x, g (f x).state = g x)
    (xs : List σ) : (each f xs).state.map g = xs.map g := by
  induction xs with
  | nil => rfl
  | cons x xs ih =>
    unfold each
    split
    · simp [after, mapState, h, ih]
    · simp [h]

end Attempt

namespace LoopRecord

/-- Treats the entries, then the exits, up to the first failure. -/
def eachPort (r : LoopRecord) (f : LoopPort → Attempt LoopPort Unit) : Attempt LoopRecord Unit :=
  ((Attempt.each f r.entries).mapState ({ r with entries := · })).andThen fun r =>
    (Attempt.each f r.exits).mapState ({ r with exits := · })

end LoopRecord

namespace LoopTable

/-- Treats the records in ascending order of their ids, up to the first failure. -/
def each (t : LoopTable) (f : LoopId → LoopRecord → Attempt LoopRecord Unit) :
    Attempt LoopTable Unit :=
  let attempt := Attempt.each (fun entry => (f entry.1 entry.2).mapState (entry.1, ·)) t.entries
  { attempt with
    state := ⟨attempt.state, by
      rw [Attempt.map_each_state _ Prod.fst (fun _ => rfl)]
      exact t.ascending⟩ }

end LoopTable

end TensorLoops
