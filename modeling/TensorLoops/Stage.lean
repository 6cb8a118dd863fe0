namespace TensorLoops

/-- The stages of a compilation. -/
inductive Stage where
  | lower
  | resolve
  | refresh
  | verify
  deriving DecidableEq, Repr

/-- What a stage leaves behind. -/
inductive Artifact where
  | program
  | loopParameters
  /-- Loop parameters for the overridden numbers of iterations. -/
  | specialized
  | certificate
  deriving DecidableEq, Repr

namespace Stage

def all : List Stage := [lower, resolve, refresh, verify]

def name : Stage → String
  | lower => "lower"
  | resolve => "init_loops"
  | refresh => "refresh"
  | verify => "verify"

/-- The stages whose results a stage uses. -/
def inputs : Stage → List Stage
  | lower => []
  | resolve => [lower]
  | refresh => [resolve]
  | verify => [refresh]

def outputs : Stage → List Artifact
  | lower => [.program]
  | resolve => [.loopParameters]
  | refresh => [.specialized]
  | verify => [.certificate]

/-- What holds once the stage has run. -/
def invariants : Stage → String
  | lower => "all values, loops and ports resolved; layouts are permutations"
  | resolve => "every loop port classified, sized, and has increments/offsets"
  | refresh => "overridden loops carry the requested work amount; classification untouched"
  | verify => "P1-P4 obligations verified"

/-- A step of a visit to stages. -/
inductive Step where
  | enter (s : Stage)
  /-- All that the stage uses has been visited. -/
  | leave (s : Stage)

def unvisited (visited : List Stage) : List Stage := all.filter (· ∉ visited)

theorem length_unvisited_cons {s : Stage} {visited : List Stage} (h : s ∉ visited) :
    (unvisited (s :: visited)).length < (unvisited visited).length := by
  have hs : s ∈ unvisited visited := by
    refine List.mem_filter.mpr ⟨?_, decide_eq_true h⟩
    cases s <;> decide
  have hcons : unvisited (s :: visited) = (unvisited visited).filter (· ≠ s) := by
    simp [unvisited, List.filter_filter]
  rw [hcons]
  exact List.length_filter_lt_length_iff_exists.mpr ⟨s, hs, by simp⟩

/-- Takes the steps of a visit, depth first, and lists the stages in the order in which they are
left. No stage is entered twice. -/
def visit (visited : List Stage) : List Step → List Stage
  | [] => []
  | .leave s :: rest => s :: visit visited rest
  | .enter s :: rest =>
    if s ∈ visited then visit visited rest
    else visit (s :: visited) (s.inputs.map .enter ++ .leave s :: rest)
termination_by steps => 5 * (unvisited visited).length + steps.length
decreasing_by
  · simp
  · simp
  · -- a stage is entered once, and adds a step for each of its inputs and one to leave it
    rename_i hs
    have hfewer := length_unvisited_cons hs
    have hinputs : s.inputs.length ≤ all.length := by cases s <;> decide
    simp only [all, List.length_append, List.length_map, List.length_cons, List.length_nil]
      at hinputs ⊢
    omega

/-- The stages to run for the results of a stage, in order. -/
def required (s : Stage) : List Stage := visit [] [.enter s]

theorem required_table (s : Stage) :
    s.required =
      match s with
      | lower => [lower]
      | resolve => [lower, resolve]
      | refresh => [lower, resolve, refresh]
      | verify => [lower, resolve, refresh, verify] := by
  cases s <;> simp [required, visit, inputs]

/-- A stage comes after all that its inputs require. -/
theorem required_eq (s : Stage) : s.required = s.inputs.flatMap required ++ [s] := by
  cases s <;> simp [required_table, inputs]

theorem required_head (s : Stage) : ∃ rest, s.required = lower :: rest := by
  rw [required_table]
  cases s <;> exact ⟨_, rfl⟩

theorem required_ne_nil (s : Stage) : s.required ≠ [] := by
  rw [required_eq]
  exact List.append_ne_nil_of_right_ne_nil _ (List.cons_ne_nil s [])

theorem eq_lower_or_inputs_ne_nil (s : Stage) : s = lower ∨ s.inputs.flatMap required ≠ [] := by
  cases s with
  | lower => exact .inl rfl
  | resolve | refresh | verify => exact .inr (by simp [inputs, required_ne_nil])

theorem verify_notMem_inputs (s : Stage) : verify ∉ s.inputs.flatMap required := by
  cases s <;> simp [inputs, required_table]

end Stage

end TensorLoops
