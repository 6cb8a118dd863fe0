import TensorLoops.Proofs.Backtracking
import TensorLoops.Proofs.Prediction
import TensorLoops.Source.Parse

namespace TensorLoops

namespace Source

namespace Grammar

variable {α : Type}

theorem starts_exactly (t u : Token) : (exactly t).starts u = decide (u = t) := by
  by_cases h : u = t <;> simp [exactly, starts, h]

theorem predictive_enclosed {opening closing : Symbol} {g : Grammar α} (hp : g.Predictive)
    (hc : g.continues (.symbol closing) = false) : (enclosed opening closing g).Predictive := by
  refine ⟨trivial, ⟨hp, trivial, fun t ht => ?_⟩, fun _ ht => by cases ht⟩
  have hne : t ≠ .symbol closing := by
    intro h
    subst h
    exact absurd ht (by simp [hc])
  exact (starts_exactly _ _).trans (by simpa using hne)

/-- A list of parts that end by themselves, in brackets. -/
theorem predictive_listEnclosed {opening closing : Symbol} {g : Grammar α} (hp : g.Predictive)
    (hn : g.nullable = false) (hcomma : g.continues (.symbol .comma) = false)
    (hc : g.continues (.symbol closing) = false) (hs : g.starts (.symbol closing) = false)
    (hne : closing ≠ .comma) : (enclosed opening closing (.list g)).Predictive := by
  apply predictive_enclosed
  · exact ⟨hp, hn, hcomma⟩
  · simp [continues, hs, hc, hne]

theorem predictive_bracketed_number : (bracketed number).Predictive :=
  predictive_listEnclosed trivial rfl rfl rfl rfl (by decide)

theorem predictive_tensorType : tensorType.Predictive := by
  refine ⟨trivial, ⟨?_, ⟨?_, rfl⟩, fun _ ht => by cases ht⟩, fun _ ht => by cases ht⟩
  · exact predictive_listEnclosed trivial rfl rfl rfl rfl (by decide)
  · exact ⟨trivial, predictive_bracketed_number, fun _ ht => by cases ht⟩

theorem predictive_typeClause : typeClause.Predictive :=
  ⟨⟨trivial, predictive_tensorType, fun _ ht => by cases ht⟩, rfl⟩

theorem predictive_operand : operand.Predictive :=
  ⟨trivial, predictive_typeClause, fun _ ht => by cases ht⟩

theorem predictive_loopsClause : loopsClause.Predictive := by
  refine ⟨⟨trivial, ?_, fun _ ht => by cases ht⟩, rfl⟩
  exact predictive_listEnclosed trivial rfl rfl rfl rfl (by decide)

/-- A type may be followed by a layout, but not by what begins with the word for loops. -/
theorem continues_typeClause {t : Token} (h : typeClause.continues t = true) :
    t = .symbol .colon ∨ t = .keyword .layout := by
  have hor : ((symbol .colon).starts t || (keyword .layout).starts t) = true := by
    simpa [typeClause, tensorType, skip, keyword, symbol, identifier, continues, starts, nullable,
      exactly, bracketed, enclosed, keep] using h
  simpa [keyword, symbol, starts_exactly] using hor

theorem predictive_expression : expression.Predictive := by
  refine ⟨⟨⟨trivial, trivial, fun _ ht => by cases ht⟩, rfl⟩,
    ⟨trivial, ⟨?_, ⟨predictive_typeClause, predictive_loopsClause, ?_⟩, fun _ ht => by cases ht⟩,
      fun _ ht => by cases ht⟩, ?_⟩
  · exact predictive_listEnclosed predictive_operand rfl rfl rfl rfl (by decide)
  · intro t ht
    rcases continues_typeClause ht with rfl | rfl <;> rfl
  · intro t ht
    cases t <;> first | rfl | cases ht

theorem predictive_port : port.Predictive := by
  refine ⟨trivial, ⟨⟨trivial, trivial, ?_⟩,
    ⟨trivial, ⟨?_, ⟨⟨trivial, trivial, ?_⟩, ⟨trivial, rfl⟩, ?_⟩, ?_⟩, ?_⟩, ?_⟩, ?_⟩
  case refine_2 => exact predictive_enclosed trivial rfl
  all_goals exact fun _ ht => by cases ht

theorem continues_port {t : Token} (h : port.continues t = true) : t = .keyword .fixed := by
  have hor : (keyword .fixed).starts t = true := by
    simpa [port, skip, keyword, symbol, continues, starts, nullable, exactly, enclosed, keep,
      number] using h
  simpa [keyword, starts_exactly] using hor

theorem predictive_loop : loop.Predictive := by
  refine ⟨⟨trivial, trivial, ?_⟩, ⟨⟨trivial, ⟨trivial, trivial, ?_⟩, ?_⟩, ?_, ?_⟩, ?_⟩
  case refine_4 =>
    refine predictive_enclosed ⟨predictive_port, rfl, fun t ht => ?_⟩ ?_
    · rw [continues_port ht]
      rfl
    · simp [continues, starts, port, portKind, skip, keyword, nullable, exactly, enclosed, keep,
        symbol, number]
  all_goals exact fun _ ht => by cases ht

theorem starts_loop {t : Token} (h : loop.starts t = true) : t = .keyword .loop := by
  have hor : (keyword .loop).starts t = true := by
    simpa [loop, skip, keyword, starts, nullable, exactly] using h
  simpa [keyword, starts_exactly] using hor

theorem continues_expression {t : Token} (h : expression.continues t = true) :
    t = .keyword .loops ∨ t = .symbol .colon ∨ t = .keyword .layout := by
  have hor : (keyword .loops).starts t = true ∨ typeClause.continues t = true := by
    simpa [expression, loopsClause, typeClause, skip, keyword, symbol, continues, starts, nullable,
      exactly, bracketed, enclosed, keep, number] using h
  rcases hor with h | h
  · exact .inl (by simpa [keyword, starts_exactly] using h)
  · exact .inr (continues_typeClause h)

/-- One token decides how to read on in a kernel. -/
theorem predictive_items : items.Predictive := by
  refine ⟨⟨predictive_loop, predictive_expression, ⟨rfl, rfl⟩, fun t ht => ?_⟩, rfl, fun t ht => ?_⟩
  · rw [starts_loop ht]
    rfl
  · have hexpr : expression.continues t = true := by
      simpa [item, loop, continues, nullable, enclosed, skip, keep, symbol, exactly] using ht
    rcases continues_expression hexpr with rfl | rfl | rfl <;> rfl

end Grammar

/-- The kernels that are read are those that the grammar derives from all tokens. -/
theorem readKernel_eq_ok {length : Nat} {tokens : Tokens} {kernel : Kernel} :
    readKernel length tokens = .ok kernel ↔
      Grammar.items.Derives tokens kernel.items ∧ kernel.span = kernelSpan length tokens := by
  constructor
  · intro h
    unfold readKernel at h
    split at h
    · rename_i items taken tried hread
      obtain ⟨htokens, hderives⟩ := Grammar.reader_sound hread
      rw [List.append_nil] at htokens
      cases h
      exact ⟨htokens ▸ hderives, rfl⟩
    · cases h
    · cases h
  · intro h
    obtain ⟨hderives, hspan⟩ := h
    have htakes := Grammar.reader_complete Grammar.predictive_items hderives (Grammar.stops_nil _)
    obtain ⟨tried, hread⟩ := htakes []
    rw [List.append_nil] at hread
    unfold readKernel
    rw [hread]
    dsimp only
    rw [← hspan]

/-- The kernel of a text is the one read from its tokens, bad text or not. -/
theorem parse_kernel_eq_some {source : String} {kernel : Kernel} :
    (parse source).kernel = some kernel ↔
      readKernel source.utf8ByteSize (scan source).tokens = .ok kernel := by
  unfold parse
  dsimp only
  cases readKernel source.utf8ByteSize (scan source).tokens <;> simp

end Source

namespace Kernel

variable {k : Kernel}

theorem mem_loops {decl : Located LoopDecl} : decl ∈ k.loops ↔ .loop decl ∈ k.items := by
  rw [loops, List.mem_filterMap]
  constructor
  · rintro ⟨item, hitem, hdecl⟩
    cases item with
    | loop l => exact Option.some.inj hdecl ▸ hitem
    | expression d => cases hdecl
  · exact fun hitem => ⟨_, hitem, rfl⟩

theorem mem_expressions {decl : Located ExpressionDecl} :
    decl ∈ k.expressions ↔ .expression decl ∈ k.items := by
  rw [expressions, List.mem_filterMap]
  constructor
  · rintro ⟨item, hitem, hdecl⟩
    cases item with
    | loop l => cases hdecl
    | expression d => exact Option.some.inj hdecl ▸ hitem
  · exact fun hitem => ⟨_, hitem, rfl⟩

end Kernel

end TensorLoops
