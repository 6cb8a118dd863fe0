import TensorLoops.Problem

namespace TensorLoops

/-- A value, or the problems that keep it from being built. What rests on a part that has failed
before fails without a problem of its own. -/
abbrev Checked (α : Type) := Except (List (Located Problem)) α

namespace Checked

variable {α β : Type}

def problems : Checked α → List (Located Problem)
  | .ok _ => []
  | .error ps => ps

def both (a : Checked α) (b : Checked β) : Checked (α × β) :=
  match a, b with
  | .ok a, .ok b => .ok (a, b)
  | a, b => .error (a.problems ++ b.problems)

/-- All values of a list, or all problems of its elements. -/
def all : List (Checked α) → Checked (List α)
  | [] => .ok []
  | x :: rest => (both x (all rest)).map fun (a, as) => a :: as

/-- The values of the elements that have one. -/
def values (xs : List (Checked α)) : List α := xs.filterMap Except.toOption

theorem problems_all (xs : List (Checked α)) : (all xs).problems = xs.flatMap problems := by
  induction xs with
  | nil => rfl
  | cons x xs ih =>
    simp only [List.flatMap_cons, ← ih, all]
    cases x <;> cases all xs <;> rfl

end Checked

end TensorLoops
