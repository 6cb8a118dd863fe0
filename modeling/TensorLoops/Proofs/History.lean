import TensorLoops.Proofs.Attempts
import TensorLoops.Proofs.Runs

namespace TensorLoops

/-- What a run is asked for. -/
structure Request where
  terminal : Stage
  overrides : Overrides
  deriving DecidableEq, Repr

namespace Compilation

def answer (c : Compilation) (request : Request) : Run := c.run request.terminal request.overrides

/-- The runs for some requests, each over what the one before has left. -/
def runs (c : Compilation) : List Request → List Run
  | [] => []
  | request :: rest => c.answer request :: (c.answer request).compilation.runs rest

/-- The compilation after some requests. -/
def after (c : Compilation) (requests : List Request) : Compilation :=
  requests.foldl (fun c request => (c.answer request).compilation) c

/-- The certificate, if there is one, is that of the program. -/
def Certified (c : Compilation) : Prop :=
  ∀ certificate, c.certificate = some certificate →
    ∃ p, c.program = some p ∧ certificate = p.certificate

theorem certified_iff {c : Compilation} :
    c.Certified ↔
      (c.certificate.isSome = true → c.certificate = c.program.map Program.certificate) := by
  unfold Certified
  cases c.certificate with
  | none => simp
  | some certificate =>
    cases c.program with
    | none => simp
    | some p => simp

/-- The last of some runs that has come to verify. -/
def lastVerified? (c : Compilation) (requests : List Request) : Option Run :=
  (c.runs requests).reverse.find? (·.Performs .verify)

theorem follows_answer (c : Compilation) (request : Request) :
    (c.answer request).Follows c request.terminal.required :=
  Run.follows_run c request.terminal request.overrides

/-- Whatever was done before, a run does the work of one on a compilation of the same kernel. -/
theorem forall₂_runs {c c' : Compilation} (hkernel : c.kernel = c'.kernel)
    (requests : List Request) :
    List.Forall₂ (fun run request => run.SameWork (c'.answer request) ∧
      run.Ends request.terminal.required) (c.runs requests) requests := by
  induction requests generalizing c with
  | nil => exact .nil
  | cons request rest ih =>
    have hfollows := c.follows_answer request
    exact .cons ⟨Run.sameWork_run hkernel _ _, hfollows.ends⟩ (ih (hfollows.kernel.trans hkernel))

/-- Problems and errors are added up. -/
theorem recorded_after (c : Compilation) (requests : List Request) :
    (c.after requests).problems = c.problems ++ (c.runs requests).flatMap Run.problems ∧
      (c.after requests).hasError =
        (c.hasError || (c.runs requests).any fun run => Problem.anyError run.problems) := by
  induction requests generalizing c with
  | nil => exact ⟨(List.append_nil _).symm, (Bool.or_false _).symm⟩
  | cons request rest ih =>
    have hfollows := c.follows_answer request
    obtain ⟨hproblems, herror⟩ := ih (c.answer request).compilation
    constructor
    · rw [runs, List.flatMap_cons, ← List.append_assoc, ← hfollows.problems]
      exact hproblems
    · rw [runs, List.any_cons, ← Bool.or_assoc, ← hfollows.hasError]
      exact herror

/-- The certificate that was there stays until a run comes to verify. -/
theorem certificate_after (c : Compilation) (requests : List Request) :
    (c.after requests).certificate =
      match c.lastVerified? requests with
      | some run => run.compilation.program.map Program.certificate
      | none => c.certificate := by
  induction requests generalizing c with
  | nil => rfl
  | cons request rest ih =>
    have hlast : c.lastVerified? (request :: rest) =
        ((c.answer request).compilation.lastVerified? rest).or
          (if (c.answer request).Performs .verify then some (c.answer request) else none) := by
      simp [lastVerified?, runs, List.find?_append, List.find?_singleton]
    refine (ih (c.answer request).compilation).trans ?_
    rw [hlast, (c.follows_answer request).certificate]
    cases (c.answer request).compilation.lastVerified? rest with
    | some run => rfl
    | none => by_cases hv : (c.answer request).Performs .verify <;> simp [hv]

theorem program_of_mem_runs {c : Compilation} {requests : List Request} {run : Run}
    (h : run ∈ c.runs requests) : run.compilation.program.isSome = true := by
  obtain ⟨request, -, hwork, -⟩ := forall₂_mem_right (forall₂_runs rfl requests).flip h
  rw [hwork.program]
  exact Run.program_run c request.terminal request.overrides

/-- A certificate has a program beside it. -/
theorem program_of_certificate (kernel : Kernel) (requests : List Request)
    (h : ((ofKernel kernel).after requests).certificate.isSome = true) :
    ((ofKernel kernel).after requests).program.isSome = true := by
  rcases List.eq_nil_or_concat requests with rfl | ⟨before, last, rfl⟩
  · cases h
  · simp only [after, List.concat_eq_append, List.foldl_append]
    exact Run.program_run _ last.terminal last.overrides

/-- Runs do not depend on what was done before. Each of some runs over one compilation performs the
stages that a run over a fresh one performs, with the same problems, failure and program; these are
the first of the required stages, and a failure is the last of them and the first with an error.
The compilation keeps the problems of all runs in order, and has an error exactly when one of these
is an error, which is when some run has failed. -/
theorem runs_independent (kernel : Kernel) (requests : List Request) :
    List.Forall₂ (fun run request =>
        run.performed = ((ofKernel kernel).answer request).performed ∧
          run.failure = ((ofKernel kernel).answer request).failure ∧
          run.compilation.program = ((ofKernel kernel).answer request).compilation.program ∧
          run.performed.map Prod.fst <+: request.terminal.required ∧
          (run.failure = none → run.performed.map Prod.fst = request.terminal.required) ∧
          ∀ stage, run.failure = some stage ↔
            ∃ before problems, run.performed = before ++ [(stage, problems)] ∧
              Problem.anyError problems = true ∧ ∀ x ∈ before, Problem.anyError x.2 = false)
      ((ofKernel kernel).runs requests) requests ∧
      ((ofKernel kernel).after requests).problems =
        ((ofKernel kernel).runs requests).flatMap (fun run => run.performed.flatMap Prod.snd) ∧
      (((ofKernel kernel).after requests).hasError = true ↔
        Problem.anyError ((ofKernel kernel).after requests).problems = true) ∧
      (((ofKernel kernel).after requests).hasError = true ↔
        ∃ run ∈ (ofKernel kernel).runs requests, run.failure ≠ none) := by
  have hruns := forall₂_runs (c := ofKernel kernel) rfl requests
  obtain ⟨hproblems, herror⟩ := (ofKernel kernel).recorded_after requests
  have hproblems : ((ofKernel kernel).after requests).problems =
      ((ofKernel kernel).runs requests).flatMap Run.problems := hproblems
  have herror : ((ofKernel kernel).after requests).hasError =
      ((ofKernel kernel).runs requests).any fun run => Problem.anyError run.problems := herror
  refine ⟨hruns.imp fun run request h => ?_, hproblems, ?_, ?_⟩
  · obtain ⟨hwork, hends⟩ := h
    exact ⟨hwork.performed, hwork.failure, hwork.program, hends.performed,
      fun hnone => (hends.completed hnone).1, fun stage => hends.failure_iff⟩
  · rw [hproblems, herror, Problem.anyError, List.any_flatMap]
    rfl
  · rw [herror, List.any_eq_true]
    refine exists_congr fun run => and_congr_right fun hrun => ?_
    obtain ⟨request, -, -, hends⟩ := forall₂_mem_right hruns.flip hrun
    rw [← hends.failure_isSome, Option.isSome_iff_ne_none]

/-- The certificate describes the program exactly as long as the program left by the last run that
has come to verify has the same certificate. There is a program beside every certificate, and a run
that comes to verify makes the certificate right again; one that ends before replaces the program
and keeps the certificate. -/
theorem certified_after_iff (kernel : Kernel) (requests : List Request) :
    (((ofKernel kernel).after requests).certificate.isSome = true →
        ((ofKernel kernel).after requests).program.isSome = true) ∧
      ((ofKernel kernel).after requests).certificate =
        ((ofKernel kernel).lastVerified? requests).bind
          (·.compilation.program.map Program.certificate) ∧
      (((ofKernel kernel).after requests).Certified ↔
        ∀ run, (ofKernel kernel).lastVerified? requests = some run →
          ((ofKernel kernel).after requests).program.map Program.certificate =
            run.compilation.program.map Program.certificate) ∧
      ∀ request, (((ofKernel kernel).after requests).answer request).Performs .verify →
        (((ofKernel kernel).after requests).answer request).compilation.Certified := by
  have hprogram := program_of_certificate kernel requests
  have hcertificate := (ofKernel kernel).certificate_after requests
  refine ⟨hprogram, ?_, ?_, fun request hverify => ?_⟩
  · rw [hcertificate]
    cases (ofKernel kernel).lastVerified? requests <;> rfl
  · rw [certified_iff, hcertificate]
    cases hlast : (ofKernel kernel).lastVerified? requests with
    | none => simp [ofKernel]
    | some run =>
      have hrun := program_of_mem_runs (List.mem_reverse.mp (List.mem_of_find?_eq_some hlast))
      simp [hrun, eq_comm]
  · rw [certified_iff]
    have hfollows := ((ofKernel kernel).after requests).follows_answer request
    rw [hfollows.certificate, if_pos hverify]
    exact fun _ => rfl

/-- A loop of four iterations that loads one element in each. -/
def loadSource : String :=
  "loop 0 work_amount = 4 \x7b entry %l.in[0] dim 0 \x7d\n" ++
  "%p = Parameter() : f32[4]\n" ++
  "%l = Load(%p) : f32[4] loops [0]\n"

/-- The certificate of a verified program stays when the kernel is lowered again, although the
element sizes of the new program are not set. -/
theorem certificate_outlives_program :
    ∃ kernel, readSource loadSource = .ok kernel ∧
      ¬ ((ofKernel kernel).after [⟨.verify, []⟩, ⟨.lower, []⟩]).Certified := by
  have hcheck : ((readSource loadSource).toOption.any fun kernel =>
      let c := (ofKernel kernel).after [⟨.verify, []⟩, ⟨.lower, []⟩]
      c.certificate.isSome && c.certificate != c.program.map Program.certificate) = true := by
    decide +kernel
  cases hread : readSource loadSource with
  | error errors => simp [hread, Except.toOption] at hcheck
  | ok kernel =>
    rw [hread] at hcheck
    obtain ⟨hsome, hstale⟩ := Bool.and_eq_true_iff.mp hcheck
    exact ⟨kernel, rfl, fun h => bne_iff_ne.mp hstale (certified_iff.mp h hsome)⟩

end Compilation

end TensorLoops
