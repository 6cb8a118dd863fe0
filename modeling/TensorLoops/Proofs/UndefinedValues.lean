import TensorLoops.Proofs.Mentions
import TensorLoops.Proofs.Mirroring

namespace TensorLoops

/-- The places at which a value is reported as undefined. -/
def Problem.undefinedPlaces (ps : List (Located Problem)) : List Span :=
  (ps.filter (·.value.code == .undefinedValue)).map (·.span)

theorem Problem.undefinedPlaces_append (ps qs : List (Located Problem)) :
    undefinedPlaces (ps ++ qs) = undefinedPlaces ps ++ undefinedPlaces qs := by
  simp [undefinedPlaces]

theorem Problem.undefinedPlaces_flatMap {α : Type} (xs : List α)
    (f : α → List (Located Problem)) :
    undefinedPlaces (xs.flatMap f) = xs.flatMap fun x => undefinedPlaces (f x) := by
  simp [undefinedPlaces, List.filter_flatMap, List.map_flatMap]

theorem Problem.mem_undefinedPlaces {ps : List (Located Problem)} {span : Span} :
    span ∈ undefinedPlaces ps ↔ ∃ p ∈ ps, p.value.code = .undefinedValue ∧ p.span = span := by
  simp [undefinedPlaces, and_assoc]

namespace Checked

variable {α β : Type}

def undefinedPlaces (x : Checked α) : List Span := Problem.undefinedPlaces x.problems

theorem undefinedPlaces_map (x : Checked α) (f : α → β) :
    undefinedPlaces (Except.map f x) = x.undefinedPlaces := by
  cases x <;> rfl

theorem undefinedPlaces_both (x : Checked α) (y : Checked β) :
    (both x y).undefinedPlaces = x.undefinedPlaces ++ y.undefinedPlaces := by
  cases x <;> cases y <;> simp [undefinedPlaces, both, problems, ← Problem.undefinedPlaces_append]

theorem undefinedPlaces_all (xs : List (Checked α)) :
    (all xs).undefinedPlaces = xs.flatMap undefinedPlaces := by
  induction xs with
  | nil => rfl
  | cons x xs ih => rw [all, undefinedPlaces_map, undefinedPlaces_both, ih, List.flatMap_cons]

end Checked

open Checked

theorem undefinedPlaces_resolveType (type : Located TensorType) :
    (resolveType type).undefinedPlaces = [] := by
  unfold resolveType
  split
  · rfl
  · dsimp only
    split
    · rfl
    · split
      · rfl
      · split <;> rfl

namespace Scope

variable (s : Scope)

/-- Whether the name has been given to a value, or would have been if its definition had not
failed. -/
def knows (name : String) : Bool := (s.definition? name).isSome || s.failed.contains name

theorem mem_place_iff {known : Bool} {place span : Span} :
    span ∈ (if known then [] else [place]) ↔ known = false ∧ place = span := by
  cases known <;> simp [eq_comm]

theorem undefinedPlaces_resolveOperand (operand : Located Operand) :
    (s.resolveOperand operand).undefinedPlaces =
      if s.knows operand.value.value.value then [] else [operand.value.value.span] := by
  unfold resolveOperand knows
  dsimp only
  cases s.definition? operand.value.value.value with
  | none =>
    rw [Option.isSome_none, Bool.false_or]
    cases s.failed.contains operand.value.value.value <;> rfl
  | some d =>
    rw [Option.isSome_some, Bool.true_or, if_pos rfl]
    dsimp only
    split
    · rfl
    · split
      · rfl
      · rw [undefinedPlaces_map, undefinedPlaces_resolveType]

theorem undefinedPlaces_resolvePort (loop : LoopId) (port : Located PortDecl) :
    (s.resolvePort loop port).undefinedPlaces =
      if s.knows port.value.value.value then [] else [port.value.value.span] := by
  unfold resolvePort knows
  dsimp only
  cases s.definition? port.value.value.value with
  | none =>
    rw [Option.isSome_none, Bool.false_or]
    cases s.failed.contains port.value.value.value <;> rfl
  | some d =>
    rw [Option.isSome_some, Bool.true_or, if_pos rfl]
    dsimp only
    split
    · rfl
    · split
      · rfl
      · split <;> rfl

theorem undefinedPlaces_resolveLoop (declared : List LoopId) (number : Located UInt64) :
    (resolveLoop declared number).undefinedPlaces = [] := by
  unfold resolveLoop
  split
  · split <;> rfl
  · rfl

theorem undefinedPlaces_resolveOutput (operation : Operation) (decl : Located ExpressionDecl) :
    (resolveOutput operation decl).undefinedPlaces = [] := by
  unfold resolveOutput
  split
  · rfl
  · split
    · rfl
    · rw [undefinedPlaces_map, undefinedPlaces_resolveType]

theorem undefinedPlaces_checkName (result : Option (Located String)) :
    (s.checkName result).undefinedPlaces = [] := by
  unfold checkName
  split
  · rfl
  · split <;> rfl

end Scope

/-- Nothing is wrong with the declaration before its operands are looked up: its operation is known,
its result is not defined yet, and it has the operands and the output type that it needs. -/
structure ExpressionDecl.Examined (decl : ExpressionDecl) (s : Scope) (operation : Operation) :
    Prop where
  known : decl.operation.value = operation.name
  fresh : ∀ name ∈ decl.result, s.definition? name.value = none
  complete : decl.operands.length = operation.inputs
  typed : operation.outputs ≠ 0 → ∃ type ∈ decl.output, ∃ d, resolveType type = .ok d

namespace Scope

variable {s : Scope} {declared : List LoopId} {decl : Located ExpressionDecl} {span : Span}

theorem exists_resolveOutput_iff {operation : Operation} :
    (∃ output, resolveOutput operation decl = .ok output) ↔
      (operation.outputs ≠ 0 → ∃ type ∈ decl.value.output, ∃ d, resolveType type = .ok d) := by
  simp only [resolveOutput_eq_ok]
  by_cases ho : operation.outputs = 0
  · simp [ho]
  · simp [ho]

/-- Of an examined declaration those operands are reported whose names are not known. -/
theorem undefinedPlaces_of_examined {operation : Operation}
    (h : decl.value.Examined s operation) :
    (s.resolve declared decl).undefinedPlaces =
      decl.value.operands.flatMap fun operand => (s.resolveOperand operand).undefinedPlaces := by
  have hloops : (decl.value.loops.map (resolveLoop declared)).flatMap undefinedPlaces = [] := by
    simp [List.flatMap_map, undefinedPlaces_resolveLoop]
  obtain ⟨output, houtput⟩ := exists_resolveOutput_iff.mpr h.typed
  unfold resolve
  simp only [Operation.ofName?_eq_some.mpr h.known, checkName_eq_ok.mpr h.fresh, h.complete,
    houtput, ne_eq, not_true_eq_false, if_false]
  rw [undefinedPlaces_map, undefinedPlaces_both, undefinedPlaces_all, undefinedPlaces_all, hloops,
    List.append_nil, List.flatMap_map]

/-- A declaration that is not examined is reported for another reason. -/
theorem examined_of_mem_undefinedPlaces (h : span ∈ (s.resolve declared decl).undefinedPlaces) :
    ∃ operation, decl.value.Examined s operation := by
  unfold resolve at h
  split at h
  · cases h
  · rename_i operation hoperation
    split at h
    · rename_i ps hname
      have hnone := undefinedPlaces_checkName s decl.value.result
      rw [hname] at hnone
      exact absurd (hnone ▸ h) List.not_mem_nil
    · rename_i hname
      split at h
      · cases h
      · rename_i hcount
        split at h
        · rename_i ps houtput
          have hnone := undefinedPlaces_resolveOutput operation decl
          rw [houtput] at hnone
          exact absurd (hnone ▸ h) List.not_mem_nil
        · rename_i output houtput
          exact ⟨operation, Operation.ofName?_eq_some.mp hoperation, checkName_eq_ok.mp hname,
            not_not.mp hcount, exists_resolveOutput_iff.mp ⟨output, houtput⟩⟩

theorem mem_undefinedPlaces_resolve :
    span ∈ (s.resolve declared decl).undefinedPlaces ↔
      (∃ operation, decl.value.Examined s operation) ∧
        ∃ operand ∈ decl.value.operands, s.knows operand.value.value.value = false ∧
          operand.value.value.span = span := by
  have hoperands : ∀ operation, decl.value.Examined s operation →
      (span ∈ (s.resolve declared decl).undefinedPlaces ↔
        ∃ operand ∈ decl.value.operands, s.knows operand.value.value.value = false ∧
          operand.value.value.span = span) := by
    intro operation h
    simp only [undefinedPlaces_of_examined h, List.mem_flatMap, undefinedPlaces_resolveOperand,
      mem_place_iff]
  constructor
  · intro h
    obtain ⟨operation, hexamined⟩ := examined_of_mem_undefinedPlaces h
    exact ⟨⟨operation, hexamined⟩, (hoperands operation hexamined).mp h⟩
  · rintro ⟨⟨operation, hexamined⟩, h⟩
    exact (hoperands operation hexamined).mpr h

theorem problems_add (s : Scope) (declared : List LoopId) (decl : Located ExpressionDecl) :
    (s.add declared decl).problems = s.problems ++ (s.resolve declared decl).problems := by
  unfold add
  cases s.resolve declared decl with
  | ok r => exact (List.append_nil _).symm
  | error ps => rfl

theorem knows_iff {name : String} :
    s.knows name = true ↔ (s.definition? name).isSome = true ∨ name ∈ s.failed := by
  simp [knows]

variable (s) (result : Option (Located String)) (name : String)

theorem knows_define (r : Resolved) :
    (s.define result r).knows name = true ↔
      s.knows name = true ∨ result.map Located.value = some name := by
  have hfailed : (s.define result r).failed = s.failed := rfl
  rw [knows_iff, knows_iff, hfailed, definition?_define]
  split
  · rename_i hname
    obtain ⟨l, rfl, -⟩ := Option.map_eq_some_iff.mp hname
    simp [hname]
  · rename_i hname
    simp [hname]

/-- The name of a rejected declaration is known as well. -/
theorem knows_reject (ps : List (Located Problem)) :
    (s.reject result ps).knows name = true ↔
      s.knows name = true ∨ result.map Located.value = some name := by
  have hdefinition : (s.reject result ps).definition? name = s.definition? name := rfl
  rw [knows_iff, knows_iff, hdefinition]
  unfold reject
  cases result with
  | none => simp
  | some l =>
    rw [Option.map_some, Option.some.injEq]
    dsimp only
    split
    · -- it is not remembered as failed, because it stays defined
      rename_i hdefined
      refine ⟨.inl, fun h => h.elim id ?_⟩
      rintro rfl
      exact .inl hdefined
    · rw [List.mem_cons, or_assoc, or_comm (a := name = l.value), eq_comm (a := name)]

/-- After a declaration its name is known, besides those that were known before. -/
theorem knows_add (declared : List LoopId) (decl : Located ExpressionDecl) :
    (s.add declared decl).knows name = true ↔
      s.knows name = true ∨ decl.value.result.map Located.value = some name := by
  unfold add
  split
  · exact knows_define s _ name _
  · exact knows_reject s _ name _

variable {s result name}

/-- A scope knows the names of the declarations it has met, lowered or not. -/
theorem knows_ofExpressions {decls : List (Located ExpressionDecl)} {name : String} :
    (ofExpressions declared decls).knows name = true ↔
      ∃ d ∈ decls, d.value.result.map Located.value = some name := by
  induction decls using List.reverseRecOn with
  | nil => simp [ofExpressions, knows, empty, definition?]
  | append_singleton decls decl ih =>
    rw [ofExpressions_concat, knows_add, ih]
    simp [or_and_right, exists_or]

/-- What is reported is reported of some declaration, by the scope of those before it. -/
theorem mem_problems_ofExpressions {decls : List (Located ExpressionDecl)} {p : Located Problem} :
    p ∈ (ofExpressions declared decls).problems ↔
      ∃ before decl after, decls = before ++ decl :: after ∧
        p ∈ ((ofExpressions declared before).resolve declared decl).problems := by
  induction decls using List.reverseRecOn with
  | nil => simp [ofExpressions, empty]
  | append_singleton decls last ih =>
    rw [ofExpressions_concat, problems_add, List.mem_append, ih]
    constructor
    · rintro (⟨before, decl, after, rfl, hp⟩ | hp)
      · exact ⟨before, decl, after ++ [last], by simp, hp⟩
      · exact ⟨decls, last, [], rfl, hp⟩
    · rintro ⟨before, decl, after, hsplit, hp⟩
      -- the declaration is the last one, or it was there before
      rcases List.eq_nil_or_concat after with rfl | ⟨after, d, rfl⟩
      · obtain ⟨rfl, hlast⟩ := List.append_inj' hsplit rfl
        cases hlast
        exact .inr hp
      · rw [List.concat_eq_append, ← List.cons_append, ← List.append_assoc] at hsplit
        obtain ⟨rfl, -⟩ := List.append_inj' hsplit rfl
        exact .inl ⟨before, decl, after, rfl, hp⟩

theorem mem_undefinedPlaces_ofExpressions {decls : List (Located ExpressionDecl)} :
    span ∈ Problem.undefinedPlaces (ofExpressions declared decls).problems ↔
      ∃ before decl after, decls = before ++ decl :: after ∧
        span ∈ ((ofExpressions declared before).resolve declared decl).undefinedPlaces := by
  unfold undefinedPlaces
  simp only [Problem.mem_undefinedPlaces, mem_problems_ofExpressions]
  constructor
  · rintro ⟨p, ⟨before, decl, after, hsplit, hp⟩, hcode⟩
    exact ⟨before, decl, after, hsplit, p, hp, hcode⟩
  · rintro ⟨before, decl, after, hsplit, p, hp, hcode⟩
    exact ⟨p, ⟨before, decl, after, hsplit, hp⟩, hcode⟩

theorem mem_undefinedPlaces_loopProblems {loop : LoopId} {decl : Located LoopDecl} :
    span ∈ Problem.undefinedPlaces (s.loopProblems loop decl) ↔
      ∃ port ∈ decl.value.ports, s.knows port.value.value.value = false ∧
        port.value.value.span = span := by
  have hempty : Problem.undefinedPlaces
      (if decl.value.ports.isEmpty then [⟨.loopWithoutPorts loop, decl.span⟩] else []) = [] := by
    split <;> rfl
  rw [loopProblems, Problem.undefinedPlaces_append, hempty, List.append_nil,
    Problem.undefinedPlaces_flatMap, List.mem_flatMap]
  refine exists_congr fun port => and_congr_right fun _ => ?_
  change span ∈ (s.resolvePort loop port).undefinedPlaces ↔ _
  rw [undefinedPlaces_resolvePort, mem_place_iff]

end Scope

namespace Acceptance

theorem undefinedPlaces_ofLoops (decls : List (Located LoopDecl)) :
    Problem.undefinedPlaces (ofLoops decls).problems = [] := by
  refine List.foldlRecOn (motive := fun a : Acceptance => Problem.undefinedPlaces a.problems = [])
    decls _ rfl fun a ha decl _ => ?_
  unfold add
  dsimp only
  split
  · rw [Problem.undefinedPlaces_append, ha]
    rfl
  · split
    · rw [Problem.undefinedPlaces_append, ha]
      rfl
    · exact ha

theorem mem_of_accepted {decls : List (Located LoopDecl)} :
    ∀ x ∈ (ofLoops decls).accepted, x.2 ∈ decls := by
  refine List.foldlRecOn (motive := fun a : Acceptance => ∀ x ∈ a.accepted, x.2 ∈ decls) decls _
    (fun x hx => nomatch hx) fun a ha decl hdecl => ?_
  rcases a.add_cases decl with ⟨loop, -, -, hadd⟩ | ⟨p, -, -, hadd⟩
  · rw [hadd]
    exact List.forall_mem_append.mpr ⟨ha, List.forall_mem_singleton.mpr hdecl⟩
  · rw [hadd]
    exact ha

end Acceptance

/-- None of the declarations gives the name to a value. -/
def Undeclared (name : String) (decls : List (Located ExpressionDecl)) : Prop :=
  ∀ d ∈ decls, d.value.result.map Located.value ≠ some name

theorem Scope.knows_eq_false {declared : List LoopId} {decls : List (Located ExpressionDecl)}
    {name : String} :
    (ofExpressions declared decls).knows name = false ↔ Undeclared name decls := by
  rw [← Bool.not_eq_true, knows_ofExpressions]
  simp [Undeclared]

namespace Kernel

/-- The value is an operand of an expression whose operands are looked up, and the declarations in
front of that expression are `before`. -/
def LooksUp (k : Kernel) (before : List (Located ExpressionDecl)) (v : Located String) : Prop :=
  ∃ decl after operation, k.expressions = before ++ decl :: after ∧
    decl.value.Examined (Scope.ofExpressions (Acceptance.ofLoops k.loops).ids before) operation ∧
    ∃ operand ∈ decl.value.operands, operand.value.value = v

/-- The value is that of a port of an accepted loop. -/
def HasPort (k : Kernel) (v : Located String) : Prop :=
  ∃ x ∈ (Acceptance.ofLoops k.loops).accepted, ∃ port ∈ x.2.value.ports, port.value.value = v

variable {k : Kernel} {span : Span}

/-- In any kernel, only operands that are looked up and ports of accepted loops are reported as
undefined, and of these only those that nothing declares. -/
theorem mem_undefinedPlaces_lower :
    span ∈ Problem.undefinedPlaces (lower k).problems ↔
      (∃ before v, k.LooksUp before v ∧ Undeclared v.value before ∧ v.span = span) ∨
        ∃ v, k.HasPort v ∧ Undeclared v.value k.expressions ∧ v.span = span := by
  unfold lower
  dsimp only
  rw [Problem.undefinedPlaces_append, Problem.undefinedPlaces_append,
    Acceptance.undefinedPlaces_ofLoops, List.nil_append, Problem.undefinedPlaces_flatMap,
    List.mem_append, List.mem_flatMap]
  simp only [Scope.mem_undefinedPlaces_ofExpressions, Scope.mem_undefinedPlaces_resolve,
    Scope.mem_undefinedPlaces_loopProblems, Scope.knows_eq_false]
  refine or_congr ⟨?_, ?_⟩ ⟨?_, ?_⟩
  · rintro ⟨before, decl, after, hsplit, ⟨operation, hexamined⟩, operand, hoperand, hrest⟩
    exact ⟨before, _, ⟨decl, after, operation, hsplit, hexamined, operand, hoperand, rfl⟩, hrest⟩
  · rintro ⟨before, v, ⟨decl, after, operation, hsplit, hexamined, operand, hoperand, rfl⟩, hrest⟩
    exact ⟨before, decl, after, hsplit, ⟨operation, hexamined⟩, operand, hoperand, hrest⟩
  · rintro ⟨x, hx, port, hport, hrest⟩
    exact ⟨_, ⟨x, hx, port, hport, rfl⟩, hrest⟩
  · rintro ⟨v, ⟨x, hx, port, hport, rfl⟩, hrest⟩
    exact ⟨x, hx, port, hport, hrest⟩

section Parsed

variable {source : String} {before before' : List (Located ExpressionDecl)} {v w : Located String}

theorem LooksUp.exists_decl (h : k.LooksUp before v) :
    ∃ decl after, k.expressions = before ++ decl :: after ∧ v ∈ decl.value.values := by
  obtain ⟨decl, after, operation, hsplit, -, operand, hoperand, rfl⟩ := h
  exact ⟨decl, after, hsplit, List.mem_append_right _ (List.mem_map_of_mem hoperand)⟩

theorem LooksUp.exists_item (h : k.LooksUp before v) :
    ∃ decl, .expression decl ∈ k.items ∧ v ∈ decl.value.values := by
  obtain ⟨decl, after, hsplit, hv⟩ := h.exists_decl
  refine ⟨decl, mem_expressions.mp ?_, hv⟩
  rw [hsplit]
  simp

theorem HasPort.exists_item (h : k.HasPort v) :
    ∃ decl, .loop decl ∈ k.items ∧ v ∈ decl.value.values := by
  obtain ⟨x, hx, port, hport, rfl⟩ := h
  exact ⟨x.2, mem_loops.mp (Acceptance.mem_of_accepted x hx), List.mem_map_of_mem hport⟩

theorem LooksUp.mem_values (h : k.LooksUp before v) : v ∈ k.items.flatMap Item.values := by
  obtain ⟨decl, hdecl, hv⟩ := h.exists_item
  exact List.mem_flatMap.mpr ⟨_, hdecl, hv⟩

theorem HasPort.mem_values (h : k.HasPort v) : v ∈ k.items.flatMap Item.values := by
  obtain ⟨decl, hdecl, hv⟩ := h.exists_item
  exact List.mem_flatMap.mpr ⟨_, hdecl, hv⟩

theorem LooksUp.unique (hparse : (parse source).kernel = some k) (hv : k.LooksUp before v)
    (hw : k.LooksUp before' w) (hspan : v.span = w.span) : before = before' ∧ v = w := by
  obtain ⟨decl, after, hsplit, hvdecl⟩ := hv.exists_decl
  obtain ⟨decl', after', hsplit', hwdecl⟩ := hw.exists_decl
  exact ⟨before_unique hparse hsplit hsplit' hvdecl hwdecl hspan,
    value_unique hparse hv.mem_values hw.mem_values hspan⟩

/-- No operand stands where a port does. -/
theorem LooksUp.span_ne (hparse : (parse source).kernel = some k) (hv : k.LooksUp before v)
    (hw : k.HasPort w) : v.span ≠ w.span := by
  obtain ⟨decl, hdecl, hv⟩ := hv.exists_item
  obtain ⟨decl', hdecl', hw⟩ := hw.exists_item
  exact items_apart hparse hdecl hdecl' nofun v hv w hw

end Parsed

end Kernel

/-- A diagnostic says that the value at this place is undefined. -/
def Lowered.ReportsUndefined (l : Lowered) (span : Span) : Prop :=
  ∃ d ∈ l.diagnostics, d.code = some .undefinedValue ∧ d.span = span

theorem Lowered.reportsUndefined_iff {l : Lowered} {span : Span} :
    l.ReportsUndefined span ↔ span ∈ Problem.undefinedPlaces l.problems := by
  simp [ReportsUndefined, diagnostics, Problem.diagnostics, Problem.diagnostic,
    Problem.mem_undefinedPlaces]

/-- In the kernel of a text, an operand that is looked up is reported as undefined exactly if no
declaration in front of it gives its name to a value, lowered or not. The value of a port of an
accepted loop is reported exactly if no declaration of the kernel does. Nothing else is reported as
undefined. -/
theorem reportsUndefined_lower_iff {source : String} {k : Kernel}
    (h : (parse source).kernel = some k) :
    (∀ before v, k.LooksUp before v →
        ((lower k).ReportsUndefined v.span ↔ Undeclared v.value before)) ∧
      (∀ v, k.HasPort v →
        ((lower k).ReportsUndefined v.span ↔ Undeclared v.value k.expressions)) ∧
      ∀ span, (lower k).ReportsUndefined span →
        (∃ before v, k.LooksUp before v ∧ v.span = span) ∨ ∃ v, k.HasPort v ∧ v.span = span := by
  simp only [Lowered.reportsUndefined_iff, Kernel.mem_undefinedPlaces_lower]
  refine ⟨fun before v hv => ⟨?_, fun hnone => .inl ⟨before, v, hv, hnone, rfl⟩⟩,
    fun v hv => ⟨?_, fun hnone => .inr ⟨v, hv, hnone, rfl⟩⟩, fun span => ?_⟩
  · rintro (⟨before', w, hw, hnone, hspan⟩ | ⟨w, hw, -, hspan⟩)
    · obtain ⟨rfl, rfl⟩ := hw.unique h hv hspan
      exact hnone
    · exact absurd hspan.symm (hv.span_ne h hw)
  · rintro (⟨before', w, hw, -, hspan⟩ | ⟨w, hw, hnone, hspan⟩)
    · exact absurd hspan (hw.span_ne h hv)
    · rw [Kernel.value_unique h hv.mem_values hw.mem_values hspan.symm]
      exact hnone
  · rintro (⟨before, v, hv, -, hspan⟩ | ⟨v, hv, -, hspan⟩)
    · exact .inl ⟨before, v, hv, hspan⟩
    · exact .inr ⟨v, hv, hspan⟩

/-- A value that is unknown, one that rests on it, one that is used in its own definition, and an
operation that does not exist. A name that has failed is defined later on. -/
def chainSource : String :=
  "%b = Exp(%zz) : f32[4]\n" ++
  "%c = Exp(%b) : f32[4]\n" ++
  "%d = Add(%c, %d) : f32[4]\n" ++
  "%b = Parameter() : f32[4]\n" ++
  "%e = Nope(%q)\n" ++
  "loop 1 work_amount = 4 \x7b entry %d.in[0] dim 0 entry %q.in[0] dim 0 \x7d\n"

theorem reportsUndefined_lower_iff_chain :
    ∃ k, (parse chainSource).kernel = some k ∧
      Problem.undefinedPlaces (lower k).problems = [⟨9, 12⟩, ⟨58, 60⟩, ⟨163, 165⟩] ∧
      (∀ before v, k.LooksUp before v →
          ((lower k).ReportsUndefined v.span ↔ Undeclared v.value before)) ∧
        (∀ v, k.HasPort v →
          ((lower k).ReportsUndefined v.span ↔ Undeclared v.value k.expressions)) ∧
        ∀ span, (lower k).ReportsUndefined span →
          (∃ before v, k.LooksUp before v ∧ v.span = span) ∨
            ∃ v, k.HasPort v ∧ v.span = span := by
  have hplaces : (parse chainSource).kernel.any (fun k =>
      Problem.undefinedPlaces (lower k).problems = [⟨9, 12⟩, ⟨58, 60⟩, ⟨163, 165⟩]) = true := by
    decide +kernel
  obtain ⟨k, hk, hplaces⟩ := (Option.any_eq_true _ _).mp hplaces
  exact ⟨k, hk, of_decide_eq_true hplaces, reportsUndefined_lower_iff hk⟩

end TensorLoops
