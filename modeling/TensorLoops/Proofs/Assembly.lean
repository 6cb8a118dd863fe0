import TensorLoops.Proofs.Attempts
import TensorLoops.Proofs.WellFormed

namespace TensorLoops

namespace Graph

/-- The graphs that come from appending accepted expressions. -/
inductive Assembled (declared : List LoopId) : Graph → Prop where
  | empty : Assembled declared .empty
  | append {g : Graph} {name : Option String} {r : Resolved} (rest : Assembled declared g)
      (accepted : g.Accepts declared name r) : Assembled declared (g.append name r)

namespace Assembled

variable {declared : List LoopId} {g : Graph}

theorem wellFormed (h : g.Assembled declared) : g.WellFormed := by
  induction h with
  | empty => exact wellFormed_empty
  | append _ accepted ih => exact ih.append accepted

theorem described (h : g.Assembled declared) :
    ∀ e ∈ g.expressions, ∀ s ∈ e.inputs ++ e.outputs, s.descriptor.Described := by
  induction h with
  | empty => simp [Graph.empty]
  | append _ accepted ih =>
    intro e he s hs
    rcases mem_expressions_append.mp he with he | rfl
    · exact ih e he s hs
    · exact WellFormed.described_appended accepted s hs

theorem loops (h : g.Assembled declared) :
    ∀ e ∈ g.expressions, ∀ loop ∈ e.loops, loop ∈ declared := by
  induction h with
  | empty => simp [Graph.empty]
  | append _ accepted ih =>
    intro e he loop hl
    rcases mem_expressions_append.mp he with he | rfl
    · exact ih e he loop hl
    · exact accepted.loops loop hl

/-- The operands of all expressions are the results of named ones. -/
theorem produced (h : g.Assembled declared) :
    ∀ e ∈ g.expressions, ∀ s ∈ e.inputs, ∃ n, g.producerName? s.connector = some n := by
  induction h with
  | empty => simp [Graph.empty]
  | @append g name r _ accepted ih =>
    intro e he s hs
    rcases mem_expressions_append.mp he with he | rfl
    · obtain ⟨n, hn⟩ := ih e he s hs
      exact ⟨n, producerName?_append hn name r⟩
    · obtain ⟨n, hn⟩ := accepted.produced s hs
      exact ⟨n, producerName?_append hn name r⟩

/-- More loops may be declared. -/
theorem mono (h : g.Assembled declared) {declared' : List LoopId}
    (hsub : ∀ loop ∈ declared, loop ∈ declared') : g.Assembled declared' := by
  induction h with
  | empty => exact .empty
  | append _ accepted ih =>
    exact .append ih { accepted with loops := fun l hl => hsub l (accepted.loops l hl) }

end Assembled

/-- A result is carried by a connector that knows the name of its expression. -/
theorem WellFormed.producerName?_of_result {g : Graph} (h : g.WellFormed) {i : ExprId}
    {e : Expression} {slot : Slot} (he : g.expressions[i]? = some e)
    (hs : e.outputs.head? = some slot) : g.producerName? slot.connector = e.name := by
  have hmem := List.mem_of_getElem? he
  obtain ⟨c, hc, hsource⟩ := h.produced e hmem slot (List.mem_of_mem_head? hs)
  have hexpr : c.source.expr = i := by rw [hsource, h.ids i e he]
  simp only [producerName?, hc, Option.bind_some, hexpr, he]

end Graph

namespace Scope

variable {s : Scope} {declared : List LoopId}

/-- The graph is assembled, and the defined names are those of its expressions. -/
structure Sound (s : Scope) (declared : List LoopId) : Prop where
  assembled : s.graph.Assembled declared
  defined : ∀ (n : String) (i : ExprId), (∃ d, s.definition? n = some d ∧ d.expr = i) ↔
    ∃ e, s.graph.expressions[i]? = some e ∧ e.name = some n

theorem sound_empty (declared : List LoopId) : Scope.empty.Sound declared where
  assembled := .empty
  defined := by simp [Scope.empty, definition?, Graph.empty]

theorem resultSlot?_eq_some {i : ExprId} {slot : Slot} :
    s.resultSlot? i = some slot ↔
      ∃ e : Expression, s.graph.expressions[i]? = some e ∧ e.outputs.head? = some slot := by
  unfold resultSlot? Graph.expression
  cases s.graph.expressions[i]? <;> simp

/-- A name is free when no expression has it. -/
theorem Sound.definition?_eq_none (h : s.Sound declared) {n : String} :
    s.definition? n = none ↔ ∀ e ∈ s.graph.expressions, e.name ≠ some n := by
  constructor
  · intro hn e he hname
    obtain ⟨i, hi⟩ := List.mem_iff_getElem?.mp he
    obtain ⟨d, hd, -⟩ := (h.defined n i).mpr ⟨e, hi, hname⟩
    rw [hn] at hd
    cases hd
  · intro hfree
    cases hd : s.definition? n with
    | none => rfl
    | some d =>
      obtain ⟨e, he, hname⟩ := (h.defined n d.expr).mp ⟨d, hd, rfl⟩
      exact absurd hname (hfree e (List.mem_of_getElem? he))

/-- An operand that can be resolved comes from the expression it names. -/
theorem Sound.producerName?_of_operand (h : s.Sound declared) {operand : Located Operand}
    {slot : Slot} (hr : s.resolveOperand operand = .ok slot) :
    s.graph.producerName? slot.connector = some operand.value.value.value := by
  obtain ⟨d, produced, hd, hp, hc, -⟩ := resolveOperand_eq_ok.mp hr
  obtain ⟨e, he, hname⟩ := (h.defined _ d.expr).mp ⟨d, hd, rfl⟩
  obtain ⟨e', he', hout⟩ := resultSlot?_eq_some.mp hp
  cases he.symm.trans he'
  rw [hc, h.assembled.wellFormed.producerName?_of_result he hout, hname]

/-- The tensor of an operand is described by a type, its own or that of its producer. -/
theorem Sound.described_of_operand (h : s.Sound declared) {operand : Located Operand}
    {slot : Slot} (hr : s.resolveOperand operand = .ok slot) : slot.descriptor.Described := by
  obtain ⟨d, produced, -, hp, -, ht⟩ := resolveOperand_eq_ok.mp hr
  cases htype : operand.value.type with
  | some type =>
    rw [htype] at ht
    exact ⟨type, ht⟩
  | none =>
    rw [htype] at ht
    obtain ⟨e, he, hout⟩ := resultSlot?_eq_some.mp hp
    have hmem := List.mem_append_right e.inputs (List.mem_of_mem_head? hout)
    exact ht ▸ h.assembled.described e (List.mem_of_getElem? he) produced hmem

/-- What resolves is accepted. -/
theorem Sound.accepts (h : s.Sound declared) {decl : Located ExpressionDecl} {r : Resolved}
    (hr : s.resolve declared decl = .ok r) :
    s.graph.Accepts declared (decl.value.result.map Located.value) r := by
  obtain ⟨-, hname, harity, hout, hoperands, hloops⟩ := resolve_eq_ok.mp hr
  have hout := resolveOutput_eq_ok.mp hout
  constructor
  · intro n hn
    obtain ⟨name, hresult, rfl⟩ := Option.map_eq_some_iff.mp hn
    exact h.definition?_eq_none.mp (hname name hresult)
  · rw [← hoperands.length_eq, harity]
  · intro slot hs
    obtain ⟨operand, -, ho⟩ := forall₂_mem_right hoperands hs
    exact ⟨_, h.producerName?_of_operand ho⟩
  · intro slot hs
    obtain ⟨operand, -, ho⟩ := forall₂_mem_right hoperands hs
    exact h.described_of_operand ho
  · intro d hd
    rcases hout with ⟨-, hnone⟩ | ⟨-, type, d', -, ht, hsome⟩
    · rw [hnone] at hd
      cases hd
    · rw [hsome] at hd
      cases hd
      exact ⟨type, ht⟩
  · rcases hout with ⟨hz, hnone⟩ | ⟨hnz, type, d', -, -, hsome⟩
    · simp [hz, hnone]
    · simp [hnz, hsome]
  · intro loop hl
    obtain ⟨number, -, hn⟩ := forall₂_mem_right hloops hl
    exact (resolveLoop_eq_ok.mp hn).2

theorem definition?_define (s : Scope) (result : Option (Located String)) (r : Resolved)
    (n : String) :
    (s.define result r).definition? n =
      if result.map Located.value = some n then
        result.map fun name => ⟨s.graph.expressions.length, name.span⟩
      else s.definition? n := by
  cases result with
  | none => rfl
  | some name =>
    by_cases hn : name.value = n
    · simp [define, definition?, hn]
    · have hb : (name.value == n) = false := by simpa using hn
      simp [define, definition?, hn, hb]

/-- Defining a resolved expression keeps a scope sound. -/
theorem Sound.define (h : s.Sound declared) {result : Option (Located String)} {r : Resolved}
    (ha : s.graph.Accepts declared (result.map Located.value) r) :
    (s.define result r).Sound declared where
  assembled := .append h.assembled ha
  defined := by
    intro n i
    have hgraph : (s.define result r).graph = s.graph.append (result.map Located.value) r := rfl
    rw [definition?_define, hgraph]
    by_cases hn : result.map Located.value = some n
    · rw [if_pos hn]
      obtain ⟨name, rfl, rfl⟩ := Option.map_eq_some_iff.mp hn
      constructor
      · intro h
        obtain ⟨d, hd, rfl⟩ := h
        cases hd
        refine ⟨s.graph.appended (some name.value) r, ?_, rfl⟩
        simp [Graph.expressions_append]
      · intro h
        obtain ⟨e, he, hname⟩ := h
        rcases Graph.expressions_append_cases he with he | ⟨rfl, -⟩
        · exact absurd hname (ha.fresh _ rfl e (List.mem_of_getElem? he))
        · exact ⟨_, rfl, rfl⟩
    · rw [if_neg hn, h.defined n i]
      constructor
      · intro h
        obtain ⟨e, he, hname⟩ := h
        exact ⟨e, Graph.getElem?_expressions_append he _ r, hname⟩
      · intro h
        obtain ⟨e, he, hname⟩ := h
        rcases Graph.expressions_append_cases he with he | ⟨-, rfl⟩
        · exact ⟨e, he, hname⟩
        · exact absurd hname hn

/-- A declaration either resolves or leaves the graph and the names as they are. -/
theorem Sound.add (h : s.Sound declared) (decl : Located ExpressionDecl) :
    (s.add declared decl).Sound declared := by
  unfold Scope.add
  cases hr : s.resolve declared decl with
  | ok r => exact h.define (h.accepts hr)
  | error ps => exact ⟨h.assembled, h.defined⟩

theorem sound_ofExpressions (declared : List LoopId) (decls : List (Located ExpressionDecl)) :
    (ofExpressions declared decls).Sound declared :=
  List.foldlRecOn (motive := fun s : Scope => s.Sound declared) decls _ (sound_empty declared)
    fun _ h decl _ => h.add decl

end Scope

end TensorLoops
