import TensorLoops.Proofs.Runs

namespace TensorLoops

namespace Program

/-- Resolving succeeds and leaves `p'`. -/
def Resolves (p p' : Program) : Prop :=
  (∃ changed, (p.resolve .full).result = .ok changed) ∧ (p.resolve .full).state = p'

/-- The overrides are applied without an error and leave `p'`. -/
def Applies (p : Program) (span : Span) (overrides : Overrides) (p' : Program) : Prop :=
  Problem.anyError (p.applyOverrides span overrides).problems = false ∧
    (p.applyOverrides span overrides).program = p'

theorem level_overrideProblem (e : LoopError) : (overrideProblem e).level = .error := by
  cases e <;> rfl

@[simp] theorem applies_nil {p p' : Program} {span : Span} : p.Applies span [] p' ↔ p = p' := by
  simp [Applies, applyOverrides, Problem.anyError]

/-- Overrides succeed one after the other. -/
theorem applies_cons {p p' : Program} {span : Span} {loop : LoopId} {n : UInt64}
    {rest : Overrides} :
    p.Applies span ((loop, n) :: rest) p' ↔
      (p.refreshLoop loop (.known n)).result = .ok () ∧
        (p.refreshLoop loop (.known n)).state.Applies span rest p' := by
  unfold Applies
  rw [applyOverrides]
  unfold Problem.anyError
  dsimp only
  rw [List.any_append, Bool.or_eq_false_iff, and_assoc]
  refine and_congr ?_ Iff.rfl
  cases (p.refreshLoop loop (.known n)).result with
  | ok u => simp
  | error e => simp [level_overrideProblem]

end Program

theorem Compilation.perform_verify {c : Compilation} {p : Program} (h : c.program = some p)
    {overrides : Overrides} : c.perform overrides .verify = some (c.performVerify p) := by
  simp only [perform, h]

namespace Run

/-- The run has not been stopped and holds a program that satisfies `P`. -/
def Holds (r : Run) (P : Program → Prop) : Prop :=
  r.failure = none ∧ ∃ p, r.compilation.program = some p ∧ P p

variable {r : Run} {c : Compilation} {overrides : Overrides} {stage : Stage} {P : Program → Prop}

theorem Holds.imp {Q : Program → Prop} (h : r.Holds P) (hPQ : ∀ p, P p → Q p) : r.Holds Q := by
  obtain ⟨hf, p, hp, hP⟩ := h
  exact ⟨hf, p, hp, hPQ p hP⟩

/-- A run goes on after a stage when it has come to it, and the stage reports no error. -/
theorem holds_advance :
    (r.advance overrides stage).Holds P ↔ r.failure = none ∧
      ∃ performed, r.compilation.perform overrides stage = some performed ∧
        Problem.anyError performed.problems = false ∧
          ∃ p, performed.compilation.program = some p ∧ P p := by
  cases hf : r.failure with
  | some failed =>
    rw [advance_of_failure hf]
    simp [Holds, hf]
  | none =>
    cases hp : r.compilation.perform overrides stage with
    | none => simp [advance, hf, hp, Holds]
    | some performed =>
      rw [advance_of_perform hf hp]
      simp [Holds, record]

theorem holds_lower (c : Compilation) (overrides : Overrides) :
    ((start c).advance overrides .lower).Holds P ↔
      Problem.anyError (lower c.kernel).problems = false ∧ P (lower c.kernel).program := by
  rw [holds_advance]
  simp [start, Compilation.perform, Compilation.performLower]

theorem holds_resolve :
    (r.advance overrides .resolve).Holds P ↔ r.Holds fun p => ∃ p', p.Resolves p' ∧ P p' := by
  rw [holds_advance]
  refine and_congr_right fun _ => ?_
  cases hp : r.compilation.program with
  | none => simp [Compilation.perform, hp]
  | some p =>
    simp only [Compilation.perform, hp, Option.some.injEq, exists_eq_left']
    unfold Compilation.performResolve Program.Resolves
    dsimp only
    cases (p.resolve .full).result with
    | ok changed => simp [Problem.anyError]
    | error e => simp [Problem.anyError, Problem.level]

theorem holds_refresh :
    (r.advance overrides .refresh).Holds P ↔
      r.Holds fun p => ∃ p', p.Applies r.compilation.kernel.span overrides p' ∧ P p' := by
  rw [holds_advance]
  refine and_congr_right fun _ => ?_
  cases hp : r.compilation.program with
  | none => simp [Compilation.perform, hp]
  | some p =>
    simp [Compilation.perform, hp, Compilation.performRefresh, Program.Applies, and_assoc]

theorem holds_verify :
    (r.advance overrides .verify).Holds P ↔
      r.Holds fun p => p.certificate.allPass = true ∧ P p := by
  rw [holds_advance]
  refine and_congr_right fun _ => ?_
  cases hp : r.compilation.program with
  | none => simp [Compilation.perform, hp]
  | some p =>
    cases hpass : p.certificate.allPass <;>
      simp [Compilation.perform, hp, Compilation.performVerify, hpass, Problem.anyError,
        Problem.level]

theorem run_resolve (c : Compilation) (overrides : Overrides) :
    c.run .resolve overrides = (c.run .lower overrides).advance overrides .resolve :=
  run_of_inputs rfl c overrides

theorem run_refresh (c : Compilation) (overrides : Overrides) :
    c.run .refresh overrides = (c.run .resolve overrides).advance overrides .refresh :=
  run_of_inputs rfl c overrides

theorem run_verify (c : Compilation) (overrides : Overrides) :
    c.run .verify overrides = (c.run .refresh overrides).advance overrides .verify :=
  run_of_inputs rfl c overrides

/-- A run ends without an error after lowering, resolving and refreshing when each of the three
succeeds. -/
theorem holds_run_refresh (c : Compilation) (overrides : Overrides) :
    (c.run .refresh overrides).Holds P ↔
      Problem.anyError (lower c.kernel).problems = false ∧
        ∃ p, (lower c.kernel).program.Resolves p ∧
          ∃ p', p.Applies c.kernel.span overrides p' ∧ P p' := by
  have hkernel : (c.run .resolve overrides).compilation.kernel = c.kernel :=
    (follows_run c .resolve overrides).kernel
  rw [run_refresh, holds_refresh, hkernel, run_resolve, holds_resolve, run_lower]
  exact holds_lower c overrides

/-- A run that reports no error is not stopped, and leaves a program. -/
theorem holds_of_hasError {terminal : Stage}
    (h : (c.run terminal overrides).compilation.hasError = false) :
    (c.run terminal overrides).Holds fun _ => True := by
  have hfollows := follows_run c terminal overrides
  rw [hfollows.hasError, Bool.or_eq_false_iff, ← hfollows.ends.failure_isSome] at h
  obtain ⟨p, hp⟩ := Option.isSome_iff_exists.mp (program_run c terminal overrides)
  exact ⟨by simpa using h.2, p, hp, trivial⟩

/-- A run comes to verify when refreshing has not stopped it. -/
theorem performs_verify_iff (c : Compilation) (overrides : Overrides) :
    (c.run .verify overrides).Performs .verify ↔
      (c.run .refresh overrides).Holds fun _ => True := by
  have hbefore : ¬ (c.run .refresh overrides).Performs .verify := fun h =>
    absurd ((follows_run c .refresh overrides).ends.performed.subset h)
      (by simp [Stage.required_table])
  obtain ⟨p, hp⟩ := Option.isSome_iff_exists.mp (program_run c .refresh overrides)
  rw [run_verify]
  cases hf : (c.run .refresh overrides).failure with
  | some failed =>
    rw [advance_of_failure hf]
    simp [hbefore, Holds, hf]
  | none =>
    rw [advance_of_perform hf (Compilation.perform_verify hp), performs_record]
    simp [Holds, hf, hp]

/-- What verify leaves: the program that it was given, and the certificate of it. -/
theorem verified_of_holds {p : Program} (h : (c.run .refresh overrides).Holds (· = p)) :
    (c.run .verify overrides).Performs .verify ∧
      (c.run .verify overrides).compilation.program = some p ∧
      (c.run .verify overrides).compilation.certificate = some p.certificate := by
  have hperforms := (performs_verify_iff c overrides).mpr (h.imp fun _ _ => trivial)
  have hcertificate := (follows_run c .verify overrides).certificate
  rw [if_pos hperforms] at hcertificate
  obtain ⟨hf, q, hq, rfl⟩ := h
  have hprogram : (c.run .verify overrides).compilation.program = some q := by
    rw [run_verify, advance_of_perform hf (Compilation.perform_verify hq)]
    exact hq
  exact ⟨hperforms, hprogram, by rw [hcertificate, hprogram]; rfl⟩

end Run

end TensorLoops
