import TensorLoops.Main
import TensorLoops.Proofs.Runs

namespace TensorLoops

/-- A run that has stopped stays as it is, whatever stages come. -/
theorem Run.foldl_advance_of_failure {r : Run} {failed : Stage} (h : r.failure = some failed)
    (overrides : Overrides) (stages : List Stage) :
    stages.foldl (Run.advance overrides) r = r := by
  induction stages with
  | nil => rfl
  | cons stage stages ih => rw [List.foldl_cons, advance_of_failure h, ih]

namespace CommandLine

variable {m : Type → Type} [Monad m] {host : Host m}

/-- The host computes the value that it is asked to time. Only how long this takes is up to it. -/
def Host.Clocks (host : Host m) : Prop :=
  ∀ {α : Type} (f : Unit → α), ∃ duration : m String, host.timed f = (f (), ·) <$> duration

/-- The clock of the system is read before and after the computation. -/
theorem clocks_systemHost : systemHost.Clocks := by
  intro α f
  exact ⟨Prod.snd <$> systemHost.timed f, rfl⟩

namespace Options

variable [LawfulMonad m]

/-- Timing the stages one by one performs them as a run does. -/
theorem exists_advanceAll (h : host.Clocks) (o : Options) (r : Run) (stages : List Stage) :
    ∃ times : m (List String),
      o.advanceAll host r stages = (stages.foldl (Run.advance o.overrides) r, ·) <$> times := by
  induction stages generalizing r with
  | nil => exact ⟨pure [], by simp [advanceAll]⟩
  | cons stage stages ih =>
    cases hf : r.failure with
    | some failed =>
      refine ⟨pure [], ?_⟩
      rw [Run.foldl_advance_of_failure hf]
      simp [advanceAll, hf]
    | none =>
      obtain ⟨duration, hduration⟩ := h fun _ => r.advance o.overrides stage
      obtain ⟨times, htimes⟩ := ih (r.advance o.overrides stage)
      refine ⟨duration >>= fun time => (timing stage time :: ·) <$> times, ?_⟩
      simp [advanceAll, hf, hduration, htimes]

/-- A call compiles as `compile` does, however long the stages take. -/
theorem exists_compile (h : host.Clocks) (o : Options) (source : String) :
    ∃ times : m (List String),
      o.compile host source =
        (TensorLoops.compile source o.emit.terminal o.overrides, ·) <$> times := by
  unfold Options.compile TensorLoops.compile
  dsimp only
  split
  · exact exists_advanceAll h o _ []
  · exact exists_advanceAll h o _ o.emit.terminal.required

/-- What a call leaves whose result goes to its caller: the diagnostics of the compilation, and its
result if there is no error among them. -/
theorem exists_call (h : host.Clocks) (o : Options) {source : String}
    (hload : host.load o.source = pure (.ok source)) (houtput : o.output = none) :
    ∃ times : m (List String), o.call host = times >>= fun times =>
      let c := (TensorLoops.compile source o.emit.terminal o.overrides).compilation
      let stderr := o.header ++ o.note times ++ c.diagnostics.map (o.diagnosticLine source)
      pure (if c.hasError then ⟨1, "", stderr⟩ else ⟨0, resultText o.emit c, stderr⟩) := by
  obtain ⟨times, htimes⟩ := exists_compile h o source
  refine ⟨times, ?_⟩
  unfold Options.call
  simp only [hload, htimes, pure_bind, bind_map_left]
  refine bind_congr fun times => ?_
  split
  · rfl
  · simp [deliver, houtput]

end Options

end CommandLine

end TensorLoops
