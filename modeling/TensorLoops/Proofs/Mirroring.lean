import Mathlib.Data.List.Induction
import Mathlib.Data.List.Nodup
import TensorLoops.Proofs.Reporting

namespace TensorLoops

/-- The tensor has the element type, the shape and the layout of the type; without a layout its axes
are in order. -/
structure TensorType.Denotes (type : TensorType) (d : Descriptor) : Prop where
  element : d.element.name = type.element.value
  shape : d.shape = type.shape.map Located.value
  layout : d.layout = match type.layout with
    | none => .identity type.shape.length
    | some axes => axes.value.map UInt64.toNat

/-- The input is attached to the result of the expression that the operand names, and has the tensor
that is declared, or else that of the result. -/
def Operand.MirroredBy (operand : Operand) (g : Graph) (slot : Slot) : Prop :=
  ∃ producer ∈ g.expressions, ∃ result, producer.name = some operand.value.value ∧
    producer.outputs = [result] ∧ slot.connector = result.connector ∧
    match operand.type with
    | none => slot.descriptor = result.descriptor
    | some type => type.value.Denotes slot.descriptor

/-- The expression is the declared one. A tensor type is declared for its result if the operation
has one. -/
structure ExpressionDecl.MirroredBy (decl : ExpressionDecl) (g : Graph) (e : Expression) :
    Prop where
  operation : e.operation.name = decl.operation.value
  name : e.name = decl.result.map Located.value
  loops : List.Forall₂ (fun number loop => loop.toNat = number.value.toNat) decl.loops e.loops
  operands : List.Forall₂ (fun operand slot => operand.value.MirroredBy g slot) decl.operands
    e.inputs
  output : e.operation.outputs ≠ 0 → ∃ type slot, decl.output = some type ∧ e.outputs = [slot] ∧
    type.value.Denotes slot.descriptor
  noOutput : e.operation.outputs = 0 → e.outputs = []

/-- The port is the declared one of the named expression. -/
structure PortDecl.MirroredBy (decl : PortDecl) (g : Graph) (q : LoopPort) : Prop where
  expression : ∃ e, g.expressions[q.port.expr]? = some e ∧ e.name = some decl.value.value
  direction : q.port.direction = decl.direction
  index : q.port.index = decl.index.toNat
  dim : q.dim = decl.dim.value.toNat
  incremented : q.incremented = !decl.fixed

/-- The loop is the declared one, with its entries and its exits in order. -/
structure LoopDecl.MirroredBy (decl : LoopDecl) (g : Graph) (id : LoopId) (r : LoopRecord) :
    Prop where
  id : id.toNat = decl.id.value.toNat
  workAmount : r.workAmount = decl.workAmount.value
  entries : List.Forall₂ (fun port q => port.value.MirroredBy g q)
    (Scope.declaredPorts .entry decl.ports) r.entries
  exits : List.Forall₂ (fun port q => port.value.MirroredBy g q)
    (Scope.declaredPorts .exit decl.ports) r.exits

namespace Kernel

/-- The program has the declared expressions in order, and the declared loops. -/
structure MirroredBy (kernel : Kernel) (p : Program) : Prop where
  expressions : List.Forall₂ (fun decl e => decl.value.MirroredBy p.graph e) kernel.expressions
    p.graph.expressions
  loops : ∃ entries, List.Perm entries p.loops.entries ∧
    List.Forall₂ (fun decl x => decl.value.MirroredBy p.graph x.1 x.2) kernel.loops entries

/-- The program has as many expressions, loops and ports of each loop as are declared. -/
structure CountedBy (kernel : Kernel) (p : Program) : Prop where
  expressions : p.graph.expressions.length = kernel.expressions.length
  loops : p.loops.size = kernel.loops.length
  ports : ∀ decl ∈ kernel.loops, ∀ x ∈ p.loops.entries, x.1.toNat = decl.value.id.value.toNat →
    x.2.entries.length = (Scope.declaredPorts .entry decl.value.ports).length ∧
      x.2.exits.length = (Scope.declaredPorts .exit decl.value.ports).length

end Kernel

theorem denotes_of_resolveType {type : Located TensorType} {d : Descriptor}
    (h : resolveType type = .ok d) : type.value.Denotes d := by
  obtain ⟨helement, hshape, hlayout⟩ := resolveType_eq_ok.mp h
  refine ⟨helement.symm, hshape.symm, ?_⟩
  cases hl : type.value.layout with
  | none =>
    rw [hl] at hlayout
    rw [hlayout, ← hshape, List.length_map]
  | some axes =>
    rw [hl] at hlayout
    exact hlayout.2.1.symm

namespace Scope

variable {s : Scope} {declared : List LoopId} {decl : Located ExpressionDecl} {r : Resolved}

theorem Sound.mirroredBy_of_operand (h : s.Sound declared) {operand : Located Operand} {slot : Slot}
    (hr : s.resolveOperand operand = .ok slot) : operand.value.MirroredBy s.graph slot := by
  obtain ⟨d, result, hd, hresult, hconnector, htype⟩ := resolveOperand_eq_ok.mp hr
  obtain ⟨e, he, hname⟩ := (h.defined _ d.expr).mp ⟨d, hd, rfl⟩
  obtain ⟨e', he', hout⟩ := resultSlot?_eq_some.mp hresult
  cases he.symm.trans he'
  have hmem := List.mem_of_getElem? he
  have houtputs : e.outputs = [result] := by
    have hone := h.assembled.wellFormed.oneResult e hmem
    cases ho : e.outputs with
    | nil => simp [ho] at hout
    | cons slot' rest =>
      rw [ho] at hone hout
      cases hout
      rw [List.length_eq_zero_iff.mp (Nat.le_zero.mp (Nat.le_of_succ_le_succ hone))]
  refine ⟨e, hmem, result, hname, houtputs, hconnector, ?_⟩
  cases ht : operand.value.type with
  | none =>
    rw [ht] at htype
    exact htype
  | some type =>
    rw [ht] at htype
    exact denotes_of_resolveType htype

end Scope

theorem Operand.MirroredBy.append {operand : Operand} {g : Graph} {slot : Slot}
    (h : operand.MirroredBy g slot) (name : Option String) (r : Resolved) :
    operand.MirroredBy (g.append name r) slot := by
  obtain ⟨producer, hmem, hrest⟩ := h
  refine ⟨producer, ?_, hrest⟩
  rw [Graph.expressions_append]
  exact List.mem_append_left _ hmem

/-- Appending an expression leaves those before as they are declared. -/
theorem ExpressionDecl.MirroredBy.append {decl : ExpressionDecl} {g : Graph} {e : Expression}
    (h : decl.MirroredBy g e) (name : Option String) (r : Resolved) :
    decl.MirroredBy (g.append name r) e :=
  { h with operands := h.operands.imp fun _ _ ho => ho.append name r }

namespace Scope

variable {s : Scope} {declared : List LoopId} {decl : Located ExpressionDecl} {r : Resolved}

/-- A declaration that resolves is mirrored by the expression that it adds. -/
theorem Sound.mirroredBy_of_resolve (h : s.Sound declared) (hr : s.resolve declared decl = .ok r) :
    decl.value.MirroredBy s.graph (s.graph.appended (decl.value.result.map Located.value) r) := by
  obtain ⟨hoperation, -, -, hout, hoperands, hloops⟩ := resolve_eq_ok.mp hr
  refine ⟨hoperation.symm, rfl, ?_, ?_, fun hsome => ?_, fun hnone => ?_⟩
  · exact hloops.imp fun number loop hn => (resolveLoop_eq_ok.mp hn).1.symm
  · exact hoperands.imp fun operand slot ho => h.mirroredBy_of_operand ho
  · obtain ⟨-, type, d, htype, hd, houtput⟩ :=
      (resolveOutput_eq_ok.mp hout).resolve_left fun hz => hsome hz.1
    exact ⟨type, ⟨d, s.graph.connectors.length⟩, htype, by simp [Graph.appended, houtput],
      denotes_of_resolveType hd⟩
  · obtain ⟨-, houtput⟩ := (resolveOutput_eq_ok.mp hout).resolve_right fun hsome => hsome.1 hnone
    simp [Graph.appended, houtput]

/-- What the expressions of a scope say about the declarations lowered so far. -/
structure Accounts (s : Scope) (decls : List (Located ExpressionDecl)) : Prop where
  le : s.graph.expressions.length ≤ decls.length
  /-- Without an error all of them are there. -/
  kept : Problem.anyError s.problems = false → s.failed = [] ∧
    List.Forall₂ (fun decl e => decl.value.MirroredBy s.graph e) decls s.graph.expressions
  /-- If all of them are there, nothing is wrong. -/
  clean : s.graph.expressions.length = decls.length → s.problems = []

theorem ofExpressions_concat (declared : List LoopId) (decls : List (Located ExpressionDecl))
    (decl : Located ExpressionDecl) :
    ofExpressions declared (decls ++ [decl]) = (ofExpressions declared decls).add declared decl := by
  simp [ofExpressions]

theorem accounts_ofExpressions (declared : List LoopId) (decls : List (Located ExpressionDecl)) :
    (ofExpressions declared decls).Accounts decls := by
  induction decls using List.reverseRecOn with
  | nil => exact ⟨Nat.le_refl 0, fun _ => ⟨rfl, .nil⟩, fun _ => rfl⟩
  | append_singleton decls decl ih =>
    have hsound := sound_ofExpressions declared decls
    rw [ofExpressions_concat]
    generalize ofExpressions declared decls = s at ih hsound ⊢
    obtain ⟨hle, hkept, hclean⟩ := ih
    unfold add
    cases hr : s.resolve declared decl with
    | ok r =>
      have hexpressions : (s.define decl.value.result r).graph.expressions =
          s.graph.expressions ++ [s.graph.appended (decl.value.result.map Located.value) r] :=
        Graph.expressions_append s.graph _ r
      refine ⟨?_, fun hnone => ?_, fun hlength => ?_⟩
      · simpa [hexpressions] using hle
      · obtain ⟨hfailed, hmirrored⟩ := hkept hnone
        refine ⟨hfailed, ?_⟩
        rw [hexpressions]
        have hadded := hsound.mirroredBy_of_resolve hr
        have hnew := hadded.append (decl.value.result.map Located.value) r
        exact List.rel_append (hmirrored.imp fun _ _ hm => hm.append _ r) (.cons hnew .nil)
      · exact hclean (by simpa [hexpressions] using hlength)
    | error ps =>
      refine ⟨?_, fun hnone => ?_, fun hlength => ?_⟩
      · exact Nat.le_trans hle (by simp)
      · -- a failure that is not reported would use a name that has failed before
        obtain ⟨hbefore, hnow⟩ := (Problem.anyError_append _ _).mp hnone
        have herror := reports_resolve (hkept hbefore).1 declared decl ps hr
        rw [hnow] at herror
        cases herror
      · have hlt : s.graph.expressions.length = decls.length + 1 := hlength.trans (by simp)
        omega

/-- A declared port that resolves is mirrored. -/
theorem Sound.mirroredBy_of_port (h : s.Sound declared) {loop : LoopId} {port : Located PortDecl}
    {q : LoopPort} (hr : s.resolvePort loop port = .ok q) : port.value.MirroredBy s.graph q := by
  obtain ⟨d, descriptor, hd, rfl, -⟩ := resolvePort_eq_ok.mp hr
  exact ⟨(h.defined _ d.expr).mp ⟨d, hd, rfl⟩, rfl, rfl, rfl, rfl⟩

/-- Without an error the record of a loop is the declared one. -/
theorem Sound.mirroredBy_of_loop (h : s.Sound declared) {loop : LoopId} {decl : Located LoopDecl}
    (hid : loopId? decl.value.id.value = some loop)
    (hports : ∀ port ∈ decl.value.ports, ∃ q, s.resolvePort loop port = .ok q) :
    decl.value.MirroredBy s.graph loop (s.loopRecord loop decl.value) := by
  have hkind : ∀ kind, List.Forall₂ (fun port q => port.value.MirroredBy s.graph q)
      (declaredPorts kind decl.value.ports) (s.portsOfKind loop kind decl.value.ports) := by
    intro kind
    have hresolved : List.Forall₂ (fun port q => s.resolvePort loop port = .ok q)
        (declaredPorts kind decl.value.ports) (s.portsOfKind loop kind decl.value.ports) :=
      forall₂_portsOfKind fun port hport => hports port (List.mem_filter.mp hport).1
    exact hresolved.imp fun port q hq => h.mirroredBy_of_port hq
  exact ⟨(loopId?_eq_some.mp hid).symm, rfl, hkind .entry, hkind .exit⟩

end Scope

namespace Acceptance

/-- What the accepted loops say about the declarations so far. -/
structure Accounts (a : Acceptance) (decls : List (Located LoopDecl)) : Prop where
  le : a.accepted.length ≤ decls.length
  /-- Without an error all of them are accepted. -/
  kept : Problem.anyError a.problems = false → a.accepted.map Prod.snd = decls
  /-- If all of them are accepted, nothing is wrong. -/
  clean : a.accepted.length = decls.length → a.problems = []
  ids : ∀ x ∈ a.accepted, loopId? x.2.value.id.value = some x.1

theorem accounts_ofLoops (decls : List (Located LoopDecl)) : (ofLoops decls).Accounts decls := by
  induction decls using List.reverseRecOn with
  | nil => exact ⟨Nat.le_refl 0, fun _ => rfl, fun _ => rfl, fun x hx => nomatch hx⟩
  | append_singleton decls decl ih =>
    have hids := id_of_mem_accepted (decls ++ [decl])
    have hconcat : ofLoops (decls ++ [decl]) = (ofLoops decls).add decl := by simp [ofLoops]
    rw [hconcat] at hids ⊢
    generalize ofLoops decls = a at ih hids ⊢
    obtain ⟨hle, hkept, hclean, -⟩ := ih
    rcases a.add_cases decl with ⟨loop, -, -, hadd⟩ | ⟨p, hp, -, hadd⟩
    · rw [hadd] at hids ⊢
      refine ⟨by simpa using hle, fun hnone => ?_, fun hlength => ?_, hids⟩
      · simp [hkept hnone]
      · exact hclean (by simpa using hlength)
    · rw [hadd] at hids ⊢
      refine ⟨Nat.le_trans hle (by simp), fun hnone => ?_, fun hlength => ?_, hids⟩
      · have hnow := ((Problem.anyError_append _ _).mp hnone).2
        simp [Problem.anyError, hp] at hnow
      · have hlt : a.accepted.length = decls.length + 1 := hlength.trans (by simp)
        omega

end Acceptance

theorem Lowered.hasErrors_eq_false (l : Lowered) :
    l.hasErrors = false ↔ ∀ d ∈ l.diagnostics, d.isError = false := by
  simp only [hasErrors, diagnostics, Problem.anyError, Problem.diagnostics, List.any_eq_false,
    List.forall_mem_map, Diagnostic.isError, Problem.diagnostic, Bool.not_eq_true]

/-- The scope in which the ports of a kernel are resolved. -/
abbrev Scope.ofKernel (kernel : Kernel) : Scope :=
  ofExpressions (Acceptance.ofLoops kernel.loops).ids kernel.expressions

/-- The errors of a kernel are those of its loop ids, of its expressions and of its ports. -/
theorem hasErrors_lower (kernel : Kernel) :
    (lower kernel).hasErrors = false ↔
      Problem.anyError (Acceptance.ofLoops kernel.loops).problems = false ∧
        Problem.anyError (Scope.ofKernel kernel).problems = false ∧
        ∀ x ∈ (Acceptance.ofLoops kernel.loops).accepted,
          Problem.anyError ((Scope.ofKernel kernel).loopProblems x.1 x.2) = false := by
  unfold Lowered.hasErrors lower
  dsimp only
  rw [Problem.anyError_append, Problem.anyError_append, and_assoc]
  simp only [Problem.anyError, List.any_flatMap, List.any_eq_false, Bool.not_eq_true]

/-- The table has a record for each accepted loop, and no other ones. -/
theorem size_lower (kernel : Kernel) :
    (lower kernel).program.loops.size = (Acceptance.ofLoops kernel.loops).accepted.length := by
  have hlength := (perm_entries_lower kernel).length_eq
  rwa [List.length_map] at hlength

/-- Without an error the program mirrors the kernel. -/
theorem mirroredBy_lower {kernel : Kernel} (h : (lower kernel).hasErrors = false) :
    kernel.MirroredBy (lower kernel).program := by
  obtain ⟨hloops, hexpressions, hports⟩ := (hasErrors_lower kernel).mp h
  have haccepted := Acceptance.accounts_ofLoops kernel.loops
  have hsound := Scope.sound_ofExpressions (Acceptance.ofLoops kernel.loops).ids kernel.expressions
  obtain ⟨hfailed, hmirrored⟩ := (Scope.accounts_ofExpressions _ _).kept hexpressions
  refine ⟨hmirrored, _, (perm_entries_lower kernel).symm, ?_⟩
  have hrecords : List.Forall₂
      (fun decl x => decl.value.MirroredBy (Scope.ofKernel kernel).graph x.1 x.2)
      ((Acceptance.ofLoops kernel.loops).accepted.map Prod.snd)
      ((Acceptance.ofLoops kernel.loops).accepted.map fun x =>
        (x.1, (Scope.ofKernel kernel).loopRecord x.1 x.2.value)) := by
    rw [List.forall₂_map_left_iff, List.forall₂_map_right_iff, List.forall₂_same]
    intro x hx
    exact hsound.mirroredBy_of_loop (haccepted.ids x hx)
      (Scope.resolves_of_loopProblems hfailed (hports x hx))
  rwa [haccepted.kept hloops] at hrecords

/-- Without an error the program has as many parts as are declared. -/
theorem countedBy_lower {kernel : Kernel} (h : (lower kernel).hasErrors = false) :
    kernel.CountedBy (lower kernel).program := by
  obtain ⟨hloops, hexpressions, hports⟩ := (hasErrors_lower kernel).mp h
  have haccepted := Acceptance.accounts_ofLoops kernel.loops
  have hkept := haccepted.kept hloops
  obtain ⟨hfailed, hmirrored⟩ := (Scope.accounts_ofExpressions _ _).kept hexpressions
  refine ⟨hmirrored.length_eq.symm, ?_, fun decl hdecl x hx hid => ?_⟩
  · rw [size_lower, ← List.length_map (f := Prod.snd), hkept]
  · obtain ⟨y, hy, rfl⟩ := List.mem_map.mp ((perm_entries_lower kernel).mem_iff.mp hx)
    rw [← hkept] at hdecl
    obtain ⟨z, hz, rfl⟩ := List.mem_map.mp hdecl
    -- an accepted loop is known by its id
    have hids : z.1 = y.1 := by
      rw [← UInt32.toNat_inj, ← loopId?_eq_some.mp (haccepted.ids z hz)]
      exact hid.symm
    cases List.inj_on_of_nodup_map (Acceptance.nodup_ids kernel.loops) hz hy hids
    exact Scope.length_ports_loopRecord.mpr
      (Scope.resolves_of_loopProblems hfailed (hports y hy))

/-- As many parts as are declared are left only without an error. -/
theorem hasErrors_of_countedBy {kernel : Kernel} (h : kernel.CountedBy (lower kernel).program) :
    (lower kernel).hasErrors = false := by
  have haccepted := Acceptance.accounts_ofLoops kernel.loops
  have hproblems := haccepted.clean ((size_lower kernel).symm.trans h.loops)
  have hexpressions := (Scope.accounts_ofExpressions _ _).clean h.expressions
  refine (hasErrors_lower kernel).mpr ⟨by rw [hproblems]; rfl, by rw [hexpressions]; rfl, ?_⟩
  intro x hx
  have hdecl : x.2 ∈ kernel.loops := by
    rw [← haccepted.kept (by rw [hproblems]; rfl)]
    exact List.mem_map_of_mem hx
  have hrecord := (perm_entries_lower kernel).mem_iff.mpr (List.mem_map_of_mem hx)
  have hcounted := h.ports x.2 hdecl _ hrecord (loopId?_eq_some.mp (haccepted.ids x hx)).symm
  exact Scope.loopProblems_of_resolves (Scope.length_ports_loopRecord.mp hcounted)

/-- Lowering reports no error exactly if the program has as many expressions, loops and ports of
each loop as are declared, and then it mirrors the kernel declaration by declaration. -/
theorem lower_keeps_all (kernel : Kernel) :
    ((∀ d ∈ (lower kernel).diagnostics, d.isError = false) ↔
        kernel.CountedBy (lower kernel).program) ∧
      ((∀ d ∈ (lower kernel).diagnostics, d.isError = false) →
        kernel.MirroredBy (lower kernel).program) := by
  rw [← Lowered.hasErrors_eq_false]
  exact ⟨⟨countedBy_lower, hasErrors_of_countedBy⟩, mirroredBy_lower⟩

/-- A value is handed on with another type. -/
def retyped : String := "%p = Parameter() : f32[4]\nResult(%p) : f32[8]\n"

/-- The type is declared for an operation without a result, so there is no output that could have
it, and nothing is reported. -/
theorem output_of_result_lost :
    ∃ kernel decl e, (parse retyped).kernel = some kernel ∧ (lower kernel).diagnostics = [] ∧
      kernel.expressions[1]? = some decl ∧ decl.value.output.isSome = true ∧
      (lower kernel).program.graph.expressions[1]? = some e ∧ e.outputs = [] := by
  have hcheck : ((parse retyped).kernel.any fun kernel =>
      (lower kernel).diagnostics.isEmpty &&
        (kernel.expressions[1]?.any (·.value.output.isSome) &&
          (lower kernel).program.graph.expressions[1]?.any (·.outputs.isEmpty))) = true := by
    decide +kernel
  obtain ⟨kernel, hkernel, hcheck⟩ := (Option.any_eq_true _ _).mp hcheck
  simp only [Bool.and_eq_true, Option.any_eq_true, List.isEmpty_iff] at hcheck
  obtain ⟨hdiagnostics, ⟨decl, hdecl, houtput⟩, e, he, hnone⟩ := hcheck
  exact ⟨kernel, decl, e, hkernel, hdiagnostics, hdecl, houtput, he, hnone⟩

end TensorLoops
