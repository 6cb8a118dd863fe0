import TensorLoops.Proofs.Calls
import TensorLoops.Proofs.Relowering

namespace TensorLoops

namespace Source

namespace Grammar

/-- The name that an expression declares is that of a value among its tokens. -/
theorem value_of_derives_expression {ts : Tokens} {decl : ExpressionDecl}
    (h : expression.Derives ts decl) {name : Located String} (hn : decl.result = some name) :
    ∃ t ∈ ts, t.value = .value name.value := by
  obtain ⟨⟨result, operation, operands, output, loops⟩, ⟨us, vs, rfl, hresult, -⟩, rfl⟩ := h
  dsimp only at hn
  subst hn
  obtain ⟨⟨name', u⟩, ⟨us', vs', rfl, ⟨⟨t, rfl, hvalue⟩, -⟩, -⟩, rfl⟩ := hresult
  refine ⟨t, by simp, ?_⟩
  cases ht : t.value with
  | value name =>
    rw [ht] at hvalue
    exact congrArg Token.value (Option.some.inj hvalue)
  | keyword k =>
    rw [ht] at hvalue
    cases hvalue
  | symbol s =>
    rw [ht] at hvalue
    cases hvalue
  | number n =>
    rw [ht] at hvalue
    cases hvalue
  | ident n =>
    rw [ht] at hvalue
    cases hvalue

theorem value_of_derives_items {ts : Tokens} {is : List Item} (h : items.Derives ts is)
    {decl : Located ExpressionDecl} (hd : .expression decl ∈ is) {name : Located String}
    (hn : decl.value.result = some name) : ∃ t ∈ ts, t.value = .value name.value := by
  have hrepeated : Repeated item.Derives ts is := h
  clear h
  induction hrepeated with
  | nil => cases hd
  | @cons us vs i is head _ ih =>
    rcases List.mem_cons.mp hd with rfl | hd
    · rcases head with ⟨loop, -, hloop⟩ | ⟨decl', ⟨hexpression, -⟩, hdecl⟩
      · cases hloop
      · cases hdecl
        obtain ⟨t, ht, hv⟩ := value_of_derives_expression hexpression hn
        exact ⟨t, List.mem_append_left _ ht, hv⟩
    · obtain ⟨t, ht, hv⟩ := ih hd
      exact ⟨t, List.mem_append_right _ ht, hv⟩

end Grammar

/-- In a kernel that has been read, the names of expressions are words. -/
theorem isName_of_parse {source : String} {kernel : Kernel}
    (h : (parse source).kernel = some kernel) :
    ∀ decl ∈ kernel.expressions, ∀ name ∈ decl.value.result, IsName name.value := by
  intro decl hdecl name hn
  obtain ⟨hderives, -⟩ := readKernel_eq_ok.mp (parse_kernel_eq_some.mp h)
  have hitem := Kernel.mem_expressions.mp hdecl
  obtain ⟨t, ht, hv⟩ := Grammar.value_of_derives_items hderives hitem hn
  exact isName_of_mem_scan ht hv

end Source

/-- The names in a graph are those that the declarations give. -/
theorem Scope.names_ofExpressions {P : String → Prop} (declared : List LoopId)
    {decls : List (Located ExpressionDecl)}
    (h : ∀ decl ∈ decls, ∀ name ∈ decl.value.result, P name.value) :
    ∀ e ∈ (ofExpressions declared decls).graph.expressions, ∀ n, e.name = some n → P n := by
  refine List.foldlRecOn
    (motive := fun s : Scope => ∀ e ∈ s.graph.expressions, ∀ n, e.name = some n → P n) decls _
    (by simp [Scope.empty, Graph.empty]) fun s hs decl hdecl => ?_
  unfold Scope.add
  cases s.resolve declared decl with
  | error ps => exact hs
  | ok r =>
    intro e he n hn
    rcases Graph.mem_expressions_append.mp he with he | rfl
    · exact hs e he n hn
    · obtain ⟨name, hname, rfl⟩ := Option.map_eq_some_iff.mp hn
      exact h decl hdecl name hname

namespace Program

/-- A program lowered from a text can be listed. -/
theorem listable_lower {source : String} {kernel : Kernel}
    (h : (parse source).kernel = some kernel) : (lower kernel).program.Listable where
  assembled := assembled_lower kernel
  fits := fits_lower kernel
  names := Scope.names_ofExpressions _ (Source.isName_of_parse h)

/-- Whether a program can be listed is not changed by calls. -/
theorem Listable.after {p : Program} (h : p.Listable) (calls : List Call) :
    (p.after calls).Listable := by
  obtain ⟨hgraph, hplaces⟩ := p.after_keeps calls
  constructor
  · rw [hgraph, LoopTable.ids_of_places hplaces]
    exact h.assembled
  · intro x hx q hq
    obtain ⟨y, hy, hid, hports⟩ := LoopTable.mem_of_places hplaces hx
    obtain ⟨q', hq', hplace⟩ := LoopRecord.mem_ports_of_places hports hq
    rw [hgraph, ← hid]
    exact (h.fits y hy q' hq').of_place hplace
  · rw [hgraph]
    exact h.names

/-- The listing of a lowered program, after any calls on it and whatever lowering has reported, is a
text in which nothing is wrong. It is lowered without errors to the same program with nothing
computed. -/
theorem lowerSource_listing {source : String} {kernel : Kernel}
    (h : (parse source).kernel = some kernel) (calls : List Call) :
    ∃ lowered, lowerSource ((lower kernel).program.after calls).listing = .ok lowered ∧
      lowered.hasErrors = false ∧
      lowered.program = ((lower kernel).program.after calls).reset := by
  have hlistable := (listable_lower h).after calls
  obtain ⟨kernel', hread, hdeclares⟩ := hlistable.readSource_listing
  obtain ⟨hprogram, herrors⟩ := lower_declared hlistable hdeclares
  refine ⟨lower kernel', ?_, herrors, hprogram⟩
  rw [lowerSource, hread]
  rfl

/-- Two loops out of order, one of them without ports; an undefined value, a layout, an operand with
a type of its own, a fixed port and an expression without a name. -/
def mixedSource : String :=
  "loop 3 work_amount = ? \x7b entry %l.in[0] dim 1 fixed \x7d\n" ++
  "%a = Load(%x) : f32[4]\n" ++
  "%p = Parameter() : f32[4, ?] layout [1, 0]\n" ++
  "%l = Load(%p : f16[1, 8]) : f32[4, ?] loops [3]\n" ++
  "Result(%l)\n" ++
  "loop 1 work_amount = 5 \x7b \x7d\n"

/-- Calls of which one fails: there is no loop 9. -/
def mixedCalls : List Call :=
  [.resolve .full, .refresh 3 (.known 2), .refresh 9 .dynamic, .resolve .callTime]

theorem lowerSource_listing_mixed :
    ∃ kernel, (parse mixedSource).kernel = some kernel ∧ (lower kernel).hasErrors = true ∧
      ∃ lowered, lowerSource ((lower kernel).program.after mixedCalls).listing = .ok lowered ∧
        lowered.hasErrors = false ∧
        lowered.program = ((lower kernel).program.after mixedCalls).reset := by
  have hread : (parse mixedSource).kernel.any (fun kernel => (lower kernel).hasErrors) = true := by
    decide +kernel
  obtain ⟨kernel, hkernel, herrors⟩ := (Option.any_eq_true _ _).mp hread
  exact ⟨kernel, hkernel, herrors, lowerSource_listing hkernel mixedCalls⟩

end Program

end TensorLoops
