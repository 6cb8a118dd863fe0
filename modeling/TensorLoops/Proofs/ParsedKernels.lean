import TensorLoops.Proofs.Denotation
import TensorLoops.Proofs.KernelReading

namespace TensorLoops

namespace Source

/-- By a predictive grammar all tokens are parsed exactly when they are derived. -/
theorem Grammar.parser_eq_some_iff {α : Type} {g : Grammar α} (hp : g.Predictive) {ts : Tokens}
    {a : α} : g.parser ts = some ⟨a, ts, []⟩ ↔ g.Derives ts a := by
  constructor
  · intro h
    exact (g.parser_sound ts _ h).2
  · intro h
    obtain ⟨tried, hread⟩ := reader_complete hp h (stops_nil _) []
    rw [List.append_nil] at hread
    exact g.reader_agrees.read hread

/-- The kernels that are read are those that a tree of the tokens denotes. -/
theorem readKernel_eq_ok_iff_tree {length : Nat} {tokens : Tokens} {kernel : Kernel} :
    readKernel length tokens = .ok kernel ↔ ∃ t, Form.kernel.tokens t = tokens ∧
      kernel = ⟨Form.itemsOf t, kernelSpan length tokens⟩ := by
  obtain ⟨items, span⟩ := kernel
  rw [readKernel_eq_ok, Form.describes_kernel tokens items]
  constructor
  · intro h
    obtain ⟨⟨t, htokens, rfl⟩, rfl⟩ := h
    exact ⟨t, htokens, rfl⟩
  · intro h
    obtain ⟨t, htokens, hkernel⟩ := h
    cases hkernel
    exact ⟨⟨t, htokens, rfl⟩, rfl⟩

end Source

open Source

/-- The errors of a source text are those of its bad text alone, and there is a kernel, exactly when
its tokens can be derived from the form of kernels. There is at most one way to derive them, and the
kernel consists of the items that it denotes. These are also the items that ordered choice with
backtracking makes of all tokens. -/
theorem parse_derivable (source : String) :
    ((parse source).errors = (scan source).badText.map (·.map ParseError.badText) ↔
      ∃ t, Form.kernel.tokens t = (scan source).tokens) ∧
    ((parse source).kernel.isSome = true ↔ ∃ t, Form.kernel.tokens t = (scan source).tokens) ∧
    (∀ t u, Form.kernel.tokens t = Form.kernel.tokens u → t = u) ∧
    (∀ t, Form.kernel.tokens t = (scan source).tokens → (parse source).kernel =
      some ⟨Form.itemsOf t, kernelSpan source.utf8ByteSize (scan source).tokens⟩) ∧
    ∀ items, Grammar.items.parser (scan source).tokens = some ⟨items, (scan source).tokens, []⟩ ↔
      (parse source).kernel.map Kernel.items = some items := by
  have htree : ∀ t, Form.kernel.tokens t = (scan source).tokens →
      readKernel source.utf8ByteSize (scan source).tokens =
        .ok ⟨Form.itemsOf t, kernelSpan source.utf8ByteSize (scan source).tokens⟩ :=
    fun t htokens => readKernel_eq_ok_iff_tree.mpr ⟨t, htokens, rfl⟩
  have hunique : ∀ t u, Form.kernel.tokens t = Form.kernel.tokens u → t = u :=
    fun t u h => Form.predictive_kernel.tree_unique h
  have hparsed : ∀ items,
      Grammar.items.parser (scan source).tokens = some ⟨items, (scan source).tokens, []⟩ ↔
        readKernel source.utf8ByteSize (scan source).tokens =
          .ok ⟨items, kernelSpan source.utf8ByteSize (scan source).tokens⟩ := by
    intro items
    rw [Grammar.parser_eq_some_iff Grammar.predictive_items, readKernel_eq_ok]
    simp
  simp only [hparsed]
  unfold parse
  dsimp only
  cases hread : readKernel source.utf8ByteSize (scan source).tokens with
  | ok kernel =>
    obtain ⟨t, htokens, rfl⟩ := readKernel_eq_ok_iff_tree.mp hread
    refine ⟨⟨fun _ => ⟨t, htokens⟩, fun _ => rfl⟩, ⟨fun _ => ⟨t, htokens⟩, fun _ => rfl⟩, hunique,
      fun u hu => ?_, fun items => by simp⟩
    rw [hunique u t (hu.trans htokens.symm)]
  | error e =>
    have hnone : ¬ ∃ t, Form.kernel.tokens t = (scan source).tokens := by
      intro h
      obtain ⟨t, htokens⟩ := h
      rw [htree t htokens] at hread
      cases hread
    exact ⟨by simp [hnone], by simp [hnone], hunique, fun t ht => absurd ⟨t, ht⟩ hnone, by simp⟩

end TensorLoops
