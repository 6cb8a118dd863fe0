import TensorLoops.Compilation

namespace TensorLoops

namespace Compilation

variable {c c' : Compilation} {overrides : Overrides} {stage : Stage} {performed : Performed}

/-- A stage leaves a program, and the kernel and what has been recorded as they were. -/
theorem keeps_perform (h : c.perform overrides stage = some performed) :
    performed.compilation.kernel = c.kernel ∧ performed.compilation.problems = c.problems ∧
      performed.compilation.hasError = c.hasError ∧
      performed.compilation.program.isSome = true := by
  unfold perform at h
  split at h
  · cases h
    exact ⟨rfl, rfl, rfl, rfl⟩
  · cases h
  · cases h
    unfold performResolve
    dsimp only
    split <;> exact ⟨rfl, rfl, rfl, rfl⟩
  · cases h
    exact ⟨rfl, rfl, rfl, rfl⟩
  · rename_i p hp
    cases h
    exact ⟨rfl, rfl, rfl, by simp [performVerify, hp]⟩

/-- Only verification writes a certificate: that of the program it leaves. -/
theorem certificate_perform (h : c.perform overrides stage = some performed) :
    performed.compilation.certificate =
      if stage = .verify then performed.compilation.program.map Program.certificate
      else c.certificate := by
  unfold perform at h
  split at h
  · cases h
    rfl
  · cases h
  · cases h
    unfold performResolve
    dsimp only
    split <;> rfl
  · cases h
    rfl
  · rename_i p hp
    cases h
    simp [performVerify, hp]

/-- What a stage does depends on the kernel and the program, and lowering needs no program. -/
theorem perform_congr (hkernel : c.kernel = c'.kernel)
    (hprogram : stage = .lower ∨ c.program = c'.program)
    (h : c.perform overrides stage = some performed) :
    ∃ performed', c'.perform overrides stage = some performed' ∧
      performed'.compilation.program = performed.compilation.program ∧
      performed'.problems = performed.problems ∧ performed'.events = performed.events := by
  unfold perform at h ⊢
  split at h
  · cases h
    exact ⟨_, rfl, by simp [performLower, hkernel]⟩
  · cases h
  · rename_i p hp
    cases h
    have hp' : c'.program = some p := (hprogram.resolve_left nofun).symm.trans hp
    rw [hp']
    refine ⟨_, rfl, ?_⟩
    unfold performResolve
    dsimp only
    split <;> simp [hkernel]
  · rename_i p hp
    cases h
    have hp' : c'.program = some p := (hprogram.resolve_left nofun).symm.trans hp
    rw [hp']
    exact ⟨_, rfl, by simp [performRefresh, hkernel]⟩
  · rename_i p hp
    cases h
    have hp' : c'.program = some p := (hprogram.resolve_left nofun).symm.trans hp
    rw [hp']
    exact ⟨_, rfl, by simp [performVerify, hp, hp', hkernel]⟩

theorem exists_perform (h : stage = .lower ∨ c.program.isSome = true) (overrides : Overrides) :
    ∃ performed, c.perform overrides stage = some performed := by
  rcases h with rfl | h
  · exact ⟨_, rfl⟩
  · obtain ⟨p, hp⟩ := Option.isSome_iff_exists.mp h
    unfold perform
    rw [hp]
    cases stage <;> exact ⟨_, rfl⟩

end Compilation

namespace Run

/-- The run has come to the stage and performed it. -/
def Performs (r : Run) (stage : Stage) : Prop := stage ∈ r.performed.map Prod.fst

instance (r : Run) (stage : Stage) : Decidable (r.Performs stage) :=
  inferInstanceAs (Decidable (_ ∈ _))

/-- The problems of the stages performed, in order. -/
def problems (r : Run) : List (Located Problem) := r.performed.flatMap Prod.snd

/-- How a run ends that was to go through `stages`: it has gone through all of them without an
error, or up to and including the first one with an error, which is its failure. -/
structure Ends (r : Run) (stages : List Stage) : Prop where
  performed : r.performed.map Prod.fst <+: stages
  completed : r.failure = none → r.performed.map Prod.fst = stages ∧
    ∀ x ∈ r.performed, Problem.anyError x.2 = false
  failed : ∀ stage, r.failure = some stage →
    ∃ before problems, r.performed = before ++ [(stage, problems)] ∧
      Problem.anyError problems = true ∧ ∀ x ∈ before, Problem.anyError x.2 = false

/-- What a run over `c` leaves when it was to go through `stages`. -/
structure Follows (r : Run) (c : Compilation) (stages : List Stage) : Prop where
  ends : r.Ends stages
  kernel : r.compilation.kernel = c.kernel
  problems : r.compilation.problems = c.problems ++ r.problems
  hasError : r.compilation.hasError = (c.hasError || Problem.anyError r.problems)
  program : r.performed ≠ [] → r.compilation.program.isSome = true
  certificate : r.compilation.certificate =
    if r.Performs .verify then r.compilation.program.map Program.certificate else c.certificate

variable {r r' : Run} {c c' : Compilation} {overrides : Overrides} {stage : Stage}

theorem anyError_problems (r : Run) :
    Problem.anyError r.problems = r.performed.any fun x => Problem.anyError x.2 := by
  simp only [Problem.anyError, problems, List.any_flatMap]

theorem performs_record {performed : Performed} {s : Stage} :
    (r.record stage performed).Performs s ↔ r.Performs s ∨ s = stage := by
  simp [Performs, record]

theorem problems_record (r : Run) (stage : Stage) (performed : Performed) :
    (r.record stage performed).problems = r.problems ++ performed.problems := by
  simp [problems, record]

theorem advance_of_failure {failed : Stage} (h : r.failure = some failed) (overrides : Overrides)
    (stage : Stage) : r.advance overrides stage = r := by
  simp only [advance, h]

theorem advance_of_perform {performed : Performed} (h : r.failure = none)
    (hp : r.compilation.perform overrides stage = some performed) :
    r.advance overrides stage = r.record stage performed := by
  simp only [advance, h, hp]

theorem Ends.record {performed : Performed} {stages : List Stage} (h : r.Ends stages)
    (hf : r.failure = none) : (r.record stage performed).Ends (stages ++ [stage]) := by
  obtain ⟨hall, hno⟩ := h.completed hf
  have hperformed : (r.record stage performed).performed.map Prod.fst = stages ++ [stage] := by
    simp [Run.record, hall]
  refine ⟨hperformed ▸ List.prefix_refl _, fun hnone => ⟨hperformed, fun x hx => ?_⟩,
    fun failed hsome => ?_⟩
  · unfold Run.record at hnone
    rcases List.mem_append.mp hx with hx | hx
    · exact hno x hx
    · rw [List.mem_singleton.mp hx]
      simpa using hnone
  · unfold Run.record at hsome
    obtain ⟨herror, rfl⟩ : Problem.anyError performed.problems = true ∧ stage = failed := by
      simpa using hsome
    exact ⟨r.performed, performed.problems, rfl, herror, hno⟩

/-- A failure is the last stage performed and the first one with an error. -/
theorem Ends.failure_iff {stages : List Stage} (h : r.Ends stages) :
    r.failure = some stage ↔ ∃ before problems, r.performed = before ++ [(stage, problems)] ∧
      Problem.anyError problems = true ∧ ∀ x ∈ before, Problem.anyError x.2 = false := by
  refine ⟨h.failed stage, fun hlast => ?_⟩
  obtain ⟨before, problems, hperformed, herror, -⟩ := hlast
  cases hf : r.failure with
  | none =>
    have hno := (h.completed hf).2 (stage, problems) (by simp [hperformed])
    exact absurd (herror.symm.trans hno) (by decide)
  | some failed =>
    obtain ⟨before', problems', hperformed', -, -⟩ := h.failed failed hf
    have hlast := (List.append_inj' (hperformed'.symm.trans hperformed) rfl).2
    exact congrArg some (congrArg Prod.fst (List.cons.inj hlast).1)

theorem Ends.failure_isSome {stages : List Stage} (h : r.Ends stages) :
    r.failure.isSome = Problem.anyError r.problems := by
  rw [anyError_problems]
  cases hf : r.failure with
  | none => exact (List.any_eq_false.mpr fun x hx => by simp [(h.completed hf).2 x hx]).symm
  | some failed =>
    obtain ⟨before, problems, hperformed, herror, -⟩ := h.failed failed hf
    simp [hperformed, herror]

theorem Ends.performed_ne_nil {stages : List Stage} (h : r.Ends stages) (hs : stages ≠ []) :
    r.performed ≠ [] := by
  intro hnil
  cases hf : r.failure with
  | none => exact hs (by rw [← (h.completed hf).1, hnil, List.map_nil])
  | some failed =>
    obtain ⟨before, problems, hperformed, -⟩ := h.failed failed hf
    simp [hnil] at hperformed

theorem follows_start (c : Compilation) : (start c).Follows c [] where
  ends := ⟨List.prefix_refl _, fun _ => ⟨rfl, nofun⟩, nofun⟩
  kernel := rfl
  problems := (List.append_nil _).symm
  hasError := (Bool.or_false _).symm
  program := fun h => absurd rfl h
  certificate := rfl

/-- A stage is performed if the run has come through all that it requires. -/
theorem Follows.advance (overrides : Overrides) (stage : Stage)
    (h : r.Follows c (stage.inputs.flatMap Stage.required)) :
    (r.advance overrides stage).Follows c stage.required := by
  rw [Stage.required_eq]
  cases hf : r.failure with
  | some failed =>
    rw [advance_of_failure hf]
    have hbegins := h.ends.performed.trans (List.prefix_append _ [stage])
    refine { h with ends := ⟨hbegins, fun hnone => ?_, h.ends.failed⟩ }
    rw [hf] at hnone
    cases hnone
  | none =>
    obtain ⟨hall, -⟩ := h.ends.completed hf
    have hready : stage = .lower ∨ r.compilation.program.isSome = true := by
      refine stage.eq_lower_or_inputs_ne_nil.imp_right fun hinputs => h.program fun hnil => ?_
      rw [hnil] at hall
      exact hinputs hall.symm
    have hverify : ¬ r.Performs .verify := by
      unfold Performs
      rw [hall]
      exact stage.verify_notMem_inputs
    obtain ⟨performed, hperform⟩ := Compilation.exists_perform hready overrides
    obtain ⟨hkernel, hproblems, herror, hprogram⟩ := Compilation.keeps_perform hperform
    rw [advance_of_perform hf hperform]
    refine ⟨h.ends.record hf, hkernel.trans h.kernel, ?_, ?_, fun _ => hprogram, ?_⟩
    · rw [problems_record, ← List.append_assoc, ← h.problems, ← hproblems]
      rfl
    · have hany : Problem.anyError (r.problems ++ performed.problems) =
          (Problem.anyError r.problems || Problem.anyError performed.problems) :=
        List.any_append
      rw [problems_record, hany, ← Bool.or_assoc, ← h.hasError, ← herror]
      rfl
    · have hcertificate := Compilation.certificate_perform hperform
      rw [h.certificate, if_neg hverify] at hcertificate
      simp only [performs_record, hverify, false_or, eq_comm (a := Stage.verify)]
      exact hcertificate

theorem run_lower (c : Compilation) (overrides : Overrides) :
    c.run .lower overrides = (start c).advance overrides .lower := by
  rw [Compilation.run, Stage.required_table]
  rfl

/-- A run goes one stage further than one to the only input of its terminal stage. -/
theorem run_of_inputs {input : Stage} (h : stage.inputs = [input]) (c : Compilation)
    (overrides : Overrides) :
    c.run stage overrides = (c.run input overrides).advance overrides stage := by
  rw [Compilation.run, Stage.required_eq, h, List.flatMap_singleton, List.foldl_append]
  rfl

/-- A run goes through what its terminal stage requires. -/
theorem follows_run (c : Compilation) (terminal : Stage) (overrides : Overrides) :
    (c.run terminal overrides).Follows c terminal.required := by
  have hlower : (c.run .lower overrides).Follows c Stage.lower.required := by
    rw [run_lower]
    exact Follows.advance overrides .lower (follows_start c)
  have hnext : ∀ {input stage : Stage}, stage.inputs = [input] →
      (c.run input overrides).Follows c input.required →
      (c.run stage overrides).Follows c stage.required := by
    intro input stage hinputs hinput
    rw [run_of_inputs hinputs]
    apply Follows.advance
    rwa [hinputs, List.flatMap_singleton]
  cases terminal with
  | lower => exact hlower
  | resolve => exact hnext rfl hlower
  | refresh => exact hnext rfl (hnext rfl hlower)
  | verify => exact hnext rfl (hnext rfl (hnext rfl hlower))

/-- Every run leaves a program: lowering always does. -/
theorem program_run (c : Compilation) (terminal : Stage) (overrides : Overrides) :
    (c.run terminal overrides).compilation.program.isSome = true := by
  have hfollows := follows_run c terminal overrides
  exact hfollows.program (hfollows.ends.performed_ne_nil terminal.required_ne_nil)

/-- Two runs over the same kernel have done the same work: the same stages with the same problems,
events and failure, and the same program at the end. -/
structure SameWork (r r' : Run) : Prop where
  kernel : r.compilation.kernel = r'.compilation.kernel
  performed : r.performed = r'.performed
  failure : r.failure = r'.failure
  events : r.events = r'.events
  program : r.compilation.program = r'.compilation.program

theorem sameWork_record {p p' : Performed} (hperformed : r.performed = r'.performed)
    (hevents : r.events = r'.events) (hkernel : p.compilation.kernel = p'.compilation.kernel)
    (hprogram : p.compilation.program = p'.compilation.program)
    (hproblems : p.problems = p'.problems) (h : p.events = p'.events) :
    (r.record stage p).SameWork (r'.record stage p') where
  kernel := hkernel
  performed := by simp only [record, hperformed, hproblems]
  failure := by simp only [record, hproblems]
  events := by simp only [record, hevents, h]
  program := hprogram

theorem SameWork.advance (h : r.SameWork r') (overrides : Overrides) (stage : Stage) :
    (r.advance overrides stage).SameWork (r'.advance overrides stage) := by
  cases hf : r.failure with
  | some failed =>
    rw [advance_of_failure hf, advance_of_failure (h.failure ▸ hf)]
    exact h
  | none =>
    have hf' : r'.failure = none := h.failure ▸ hf
    cases hp : r.compilation.perform overrides stage with
    | some p =>
      obtain ⟨p', hp', hprogram, hproblems, hevents⟩ :=
        Compilation.perform_congr h.kernel (.inr h.program) hp
      rw [advance_of_perform hf hp, advance_of_perform hf' hp']
      refine sameWork_record h.performed h.events ?_ hprogram.symm hproblems.symm hevents.symm
      exact ((Compilation.keeps_perform hp).1.trans h.kernel).trans
        (Compilation.keeps_perform hp').1.symm
    | none =>
      have hp' : r'.compilation.perform overrides stage = none := by
        cases hp' : r'.compilation.perform overrides stage with
        | none => rfl
        | some p' =>
          obtain ⟨p, hsome, -⟩ :=
            Compilation.perform_congr h.kernel.symm (.inr h.program.symm) hp'
          rw [hp] at hsome
          cases hsome
      simp only [Run.advance, hf, hf', hp, hp']
      exact ⟨h.kernel, h.performed, rfl, h.events, h.program⟩

theorem SameWork.foldl (overrides : Overrides) (stages : List Stage) (h : r.SameWork r') :
    (stages.foldl (Run.advance overrides) r).SameWork
      (stages.foldl (Run.advance overrides) r') := by
  induction stages generalizing r r' with
  | nil => exact h
  | cons stage stages ih => exact ih (h.advance overrides stage)

/-- Lowering comes first and replaces the program, so all that a run takes from its compilation is
the kernel. -/
theorem sameWork_run (hkernel : c.kernel = c'.kernel) (terminal : Stage) (overrides : Overrides) :
    (c.run terminal overrides).SameWork (c'.run terminal overrides) := by
  have hlower : ((start c).record .lower c.performLower).SameWork
      ((start c').record .lower c'.performLower) := by
    apply sameWork_record rfl rfl hkernel
    all_goals simp only [Compilation.performLower, hkernel]
  obtain ⟨rest, hrequired⟩ := terminal.required_head
  unfold Compilation.run
  rw [hrequired]
  exact hlower.foldl overrides rest

end Run

end TensorLoops
