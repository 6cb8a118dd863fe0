import TensorLoops.Proofs.Displacement
import TensorLoops.Proofs.LoweredProgram
import TensorLoops.Proofs.StageRules

namespace TensorLoops

namespace Program

/-- The ports of every loop are computed for its number of iterations. -/
def Computed (p : Program) : Prop := ∀ x ∈ p.loops.entries, x.2.Computed p.graph

theorem computed_of_isEmpty {p : Program} (hinside : p.HasPortsInside) (h : p.isEmpty = true) :
    p.Computed := by
  intro x hx q hq
  rw [hinside h x hx] at hq
  cases hq

theorem computed_resolve {p p' : Program} (hinside : p.HasPortsInside) (h : p.Resolves p') :
    p'.Computed := by
  obtain ⟨hresult, rfl⟩ := h
  cases hl : p.hasLoops with
  | true =>
    intro y hy
    have heach := LoopTable.reaches_each.mp (reaches_resolve hl hresult)
    obtain ⟨x, -, -, hr⟩ := forall₂_mem_right heach hy
    rw [graph_resolve]
    exact (LoopRecord.settled_resolve hr).2.computed
  | false =>
    have hstate : (p.resolve .full).state = p := by simp [resolve, hl, Attempt.done]
    rw [hstate]
    rcases Bool.and_eq_false_iff.mp hl with hempty | hempty
    · exact computed_of_isEmpty hinside (by simpa using hempty)
    · intro x hx
      have hnil : p.loops.entries = [] := by
        simpa [LoopTable.isEmpty] using hempty
      rw [hnil] at hx
      cases hx

/-- A successful refresh computes the ports of one loop and leaves the others alone. -/
theorem Computed.refreshLoop {p : Program} (hc : p.Computed) {loop : LoopId} {amount : Extent}
    (h : (p.refreshLoop loop amount).result = .ok ()) :
    (p.refreshLoop loop amount).state.Computed := by
  intro x hx
  rw [graph_refreshLoop]
  rcases mem_refreshLoop h hx with hx | ⟨r, -, -, hr⟩
  · exact hc x hx
  · exact (LoopRecord.computed_refresh hr).2

theorem Computed.applies {p p' : Program} (hc : p.Computed) {span : Span} {overrides : Overrides}
    (h : p.Applies span overrides p') : p'.Computed := by
  induction overrides generalizing p with
  | nil => exact applies_nil.mp h ▸ hc
  | cons entry rest ih =>
    obtain ⟨hfirst, hrest⟩ := applies_cons.mp h
    exact ih (hc.refreshLoop hfirst) hrest

theorem isConsistent_of_allPass {p : Program} (h : p.certificate.allPass = true) :
    ∀ x ∈ p.loops.entries, x.2.isConsistent p.graph x.1 = true := by
  simp only [Certificate.allPass, certificate, Bool.and_eq_true, List.all_eq_true] at h
  exact h.1.2

end Program

/-- A compilation without errors ends with a computed program that meets its obligations. -/
theorem compile_holds {source : String} {overrides : Overrides}
    (h : (compile source .verify overrides).compilation.hasError = false) :
    (compile source .verify overrides).Holds fun p =>
      p.Computed ∧ p.certificate.allPass = true := by
  unfold compile at h ⊢
  dsimp only at h ⊢
  split at h
  · rename_i herror
    exact absurd (herror.symm.trans h) (by decide)
  · rename_i herror
    rw [if_neg herror]
    have hholds := Run.holds_of_hasError h
    rw [Run.run_verify, Run.holds_verify, Run.holds_run_refresh] at hholds ⊢
    obtain ⟨hlower, p, hresolve, p', happlies, hpass, -⟩ := hholds
    have hcomputed := (Program.computed_resolve (hasPortsInside_lower _) hresolve).applies happlies
    exact ⟨hlower, p, hresolve, p', happlies, hpass, hcomputed, hpass⟩

/-- In a compilation without errors the pointers of every loop stay on the axes they walk and return
to where they were, if the number of iterations and the walked extents are known. The number may be
merged, declared or overridden. -/
theorem compile_staysInside (source : String) (overrides : Overrides)
    (h : (compile source .verify overrides).compilation.hasError = false) :
    ∃ p, (compile source .verify overrides).compilation.program = some p ∧
      ∀ x ∈ p.loops.entries, ∀ n, x.2.workAmount = .known n →
        (∀ q ∈ x.2.movingPorts, ∃ w e, q.walk p.graph = .ok w ∧ w.extent = .known e) →
        x.2.StaysInside p.graph n := by
  obtain ⟨-, p, hp, hc, hpass⟩ := compile_holds h
  refine ⟨p, hp, fun x hx n hn hknown => ?_⟩
  exact (hc x hx).staysInside hn (Program.isConsistent_of_allPass hpass x hx) hknown

/-- Copies the columns of a matrix of four rows; the loop declares one row too few. -/
def copySource : String :=
  "loop 0 work_amount = 3 \x7b entry %l.in[0] dim 1 exit %s.out[0] dim 1 \x7d\n" ++
  "%p = Parameter() : f32[4, 5]\n" ++
  "%l = Load(%p) : f32[4, 5] loops [0]\n" ++
  "%s = Store(%l) : f32[4, 5] loops [0]\n" ++
  "Result(%s)\n"

/-- With the number of rows overridden the copy compiles, and its two pointers stay inside. -/
theorem compile_staysInside_copy :
    (compile copySource .verify [(0, 4)]).compilation.hasError = false ∧
      ∃ p, (compile copySource .verify [(0, 4)]).compilation.program = some p ∧
        ∃ x ∈ p.loops.entries, x.2.movingPorts.length = 2 ∧ x.2.StaysInside p.graph 4 := by
  have hcompile : (!(compile copySource .verify [(0, 4)]).compilation.hasError &&
      (compile copySource .verify [(0, 4)]).compilation.program.all fun p =>
        p.loops.entries.any fun x => x.2.workAmount == .known 4 && x.2.movingPorts.length == 2 &&
          x.2.movingPorts.all fun q =>
            (q.walk p.graph).toOption.any fun w => !w.extent.isDynamic) = true := by
    decide +kernel
  obtain ⟨herror, hknown⟩ := Bool.and_eq_true_iff.mp hcompile
  have hok : (compile copySource .verify [(0, 4)]).compilation.hasError = false := by
    simpa using herror
  obtain ⟨p, hp, hall⟩ := compile_staysInside copySource [(0, 4)] hok
  rw [hp] at hknown
  obtain ⟨x, hx, hcheck⟩ := List.any_eq_true.mp hknown
  simp only [Bool.and_eq_true, beq_iff_eq, List.all_eq_true] at hcheck
  obtain ⟨⟨hn, htwo⟩, hwalks⟩ := hcheck
  refine ⟨hok, p, hp, x, hx, htwo, hall x hx 4 hn fun q hq => ?_⟩
  have hq := hwalks q hq
  cases hw : q.walk p.graph with
  | error e =>
    rw [hw] at hq
    cases hq
  | ok w =>
    rw [hw] at hq
    cases he : w.extent with
    | dynamic =>
      simp [Except.toOption, he, Extent.isDynamic] at hq
    | known n => exact ⟨w, n, rfl, he⟩

end TensorLoops
