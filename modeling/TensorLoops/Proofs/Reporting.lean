import TensorLoops.Proofs.LoweredProgram

namespace TensorLoops

theorem Problem.anyError_append (ps qs : List (Located Problem)) :
    anyError (ps ++ qs) = false ↔ anyError ps = false ∧ anyError qs = false := by
  simp only [anyError, List.any_append, Bool.or_eq_false_iff]

namespace Checked

variable {α β : Type} {x : Checked α} {y : Checked β}

/-- A failure comes with an error. -/
def Reports (x : Checked α) : Prop := ∀ ps, x = .error ps → Problem.anyError ps = true

theorem reports_ok (a : α) : Reports (.ok a) := nofun

theorem reports_error {p : Located Problem} (h : p.value.level = .error) :
    Reports (.error [p] : Checked α) := by
  intro ps hps
  cases hps
  simp [Problem.anyError, h]

theorem Reports.map (h : x.Reports) (f : α → β) : Reports (Except.map f x) := by
  cases x with
  | ok a => exact reports_ok (f a)
  | error ps => exact fun qs hqs => h qs (by cases hqs; rfl)

theorem Reports.both (hx : x.Reports) (hy : y.Reports) : (both x y).Reports := by
  intro ps hps
  by_contra hnone
  rw [Bool.not_eq_true] at hnone
  cases x with
  | error qs =>
    cases hps
    have hfirst := ((Problem.anyError_append qs y.problems).mp hnone).1
    rw [hx qs rfl] at hfirst
    cases hfirst
  | ok a =>
    cases y with
    | ok b => cases hps
    | error qs =>
      cases hps
      have hsecond : Problem.anyError qs = false := hnone
      rw [hy qs rfl] at hsecond
      cases hsecond

theorem Reports.all {xs : List (Checked α)} (h : ∀ x ∈ xs, x.Reports) : (all xs).Reports := by
  induction xs with
  | nil => exact reports_ok []
  | cons x xs ih =>
    obtain ⟨hx, hrest⟩ := List.forall_mem_cons.mp h
    exact (hx.both (ih hrest)).map _

/-- Where no error is reported there is a value. -/
theorem Reports.exists_ok (h : x.Reports) (hnone : Problem.anyError x.problems = false) :
    ∃ a, x = .ok a := by
  cases x with
  | ok a => exact ⟨a, rfl⟩
  | error ps =>
    have herror := h ps rfl
    rw [show Problem.anyError ps = false from hnone] at herror
    cases herror

/-- As many values as elements means a value for each element. -/
theorem length_values {xs : List (Checked α)} :
    (values xs).length = xs.length ↔ ∀ x ∈ xs, ∃ a, x = .ok a := by
  rw [values, List.filterMap_length_eq_length]
  refine forall₂_congr fun x _ => ?_
  cases x <;> simp [Except.toOption]

theorem forall₂_values {xs : List (Checked α)} (h : ∀ x ∈ xs, ∃ a, x = .ok a) :
    List.Forall₂ (fun x a => x = .ok a) xs (values xs) := by
  induction xs with
  | nil => exact .nil
  | cons x xs ih =>
    obtain ⟨⟨a, rfl⟩, hrest⟩ := List.forall_mem_cons.mp h
    exact .cons rfl (ih hrest)

end Checked

open Checked

theorem reports_resolveType (type : Located TensorType) : (resolveType type).Reports := by
  unfold resolveType
  split
  · exact reports_error rfl
  · dsimp only
    split
    · exact reports_ok _
    · split
      · exact reports_error rfl
      · split
        · exact reports_ok _
        · exact reports_error rfl

namespace Scope

variable {s : Scope}

theorem reports_resolveOperand (h : s.failed = []) (operand : Located Operand) :
    (s.resolveOperand operand).Reports := by
  unfold resolveOperand
  dsimp only
  split
  · rw [h]
    exact reports_error rfl
  · split
    · exact reports_error rfl
    · split
      · exact reports_ok _
      · exact (reports_resolveType _).map _

theorem reports_resolveLoop (declared : List LoopId) (number : Located UInt64) :
    (resolveLoop declared number).Reports := by
  unfold resolveLoop
  split
  · split
    · exact reports_ok _
    · exact reports_error rfl
  · exact reports_error rfl

theorem reports_resolveOutput (operation : Operation) (decl : Located ExpressionDecl) :
    (resolveOutput operation decl).Reports := by
  unfold resolveOutput
  split
  · exact reports_ok _
  · split
    · exact reports_error rfl
    · exact (reports_resolveType _).map _

theorem reports_checkName (s : Scope) (result : Option (Located String)) :
    (s.checkName result).Reports := by
  unfold checkName
  split
  · exact reports_ok _
  · split
    · exact reports_error rfl
    · exact reports_ok _

/-- As long as no definition has failed, every failure is reported. -/
theorem reports_resolve (h : s.failed = []) (declared : List LoopId)
    (decl : Located ExpressionDecl) : (s.resolve declared decl).Reports := by
  have hoperands : (all (decl.value.operands.map s.resolveOperand)).Reports := by
    refine .all fun x hx => ?_
    obtain ⟨operand, -, rfl⟩ := List.mem_map.mp hx
    exact reports_resolveOperand h operand
  have hloops : (all (decl.value.loops.map (resolveLoop declared))).Reports := by
    refine .all fun x hx => ?_
    obtain ⟨number, -, rfl⟩ := List.mem_map.mp hx
    exact reports_resolveLoop declared number
  unfold resolve
  split
  · exact reports_error rfl
  · rename_i operation hoperation
    split
    · rename_i ps hname
      intro qs hqs
      cases hqs
      exact reports_checkName s decl.value.result ps hname
    · split
      · exact reports_error rfl
      · split
        · rename_i ps hout
          intro qs hqs
          cases hqs
          exact reports_resolveOutput operation decl ps hout
        · exact (hoperands.both hloops).map _

theorem reports_resolvePort (h : s.failed = []) (loop : LoopId) (decl : Located PortDecl) :
    (s.resolvePort loop decl).Reports := by
  unfold resolvePort
  dsimp only
  split
  · rw [h]
    exact reports_error rfl
  · split
    · exact reports_error rfl
    · split
      · exact reports_error rfl
      · split
        · exact reports_ok _
        · exact reports_error rfl

/-- Ports that are not there have been reported. -/
theorem resolves_of_loopProblems (h : s.failed = []) {loop : LoopId} {decl : Located LoopDecl}
    (hnone : Problem.anyError (s.loopProblems loop decl) = false) :
    ∀ port ∈ decl.value.ports, ∃ q, s.resolvePort loop port = .ok q := by
  intro port hport
  refine (reports_resolvePort h loop port).exists_ok ?_
  have hports := ((Problem.anyError_append _ _).mp hnone).1
  simp only [Problem.anyError, List.any_flatMap, List.any_eq_false] at hports ⊢
  simpa using hports port hport

theorem loopProblems_of_resolves {loop : LoopId} {decl : Located LoopDecl}
    (h : ∀ port ∈ decl.value.ports, ∃ q, s.resolvePort loop port = .ok q) :
    Problem.anyError (s.loopProblems loop decl) = false := by
  refine (Problem.anyError_append _ _).mpr ⟨?_, ?_⟩
  · have hnone :
        decl.value.ports.flatMap (fun port => (s.resolvePort loop port).problems) = [] := by
      refine List.flatMap_eq_nil_iff.mpr fun port hport => ?_
      obtain ⟨q, hq⟩ := h port hport
      rw [hq]
      rfl
    rw [hnone]
    rfl
  · split <;> rfl

/-- The declared ports of one kind. -/
def declaredPorts (kind : PortKind) (decls : List (Located PortDecl)) : List (Located PortDecl) :=
  decls.filter (·.value.kind == kind)

variable {loop : LoopId} {kind : PortKind} {decls : List (Located PortDecl)}

theorem length_portsOfKind :
    (s.portsOfKind loop kind decls).length = (declaredPorts kind decls).length ↔
      ∀ port ∈ declaredPorts kind decls, ∃ q, s.resolvePort loop port = .ok q := by
  have hlength : ((declaredPorts kind decls).map (s.resolvePort loop)).length =
      (declaredPorts kind decls).length := List.length_map _
  rw [← hlength]
  exact length_values.trans List.forall_mem_map

theorem forall₂_portsOfKind
    (h : ∀ port ∈ declaredPorts kind decls, ∃ q, s.resolvePort loop port = .ok q) :
    List.Forall₂ (fun port q => s.resolvePort loop port = .ok q) (declaredPorts kind decls)
      (s.portsOfKind loop kind decls) :=
  List.forall₂_map_left_iff.mp (forall₂_values (List.forall_mem_map.mpr h))

/-- The record of a loop has as many ports as are declared exactly if all of them resolve. -/
theorem length_ports_loopRecord {decl : LoopDecl} :
    ((s.loopRecord loop decl).entries.length = (declaredPorts .entry decl.ports).length ∧
        (s.loopRecord loop decl).exits.length = (declaredPorts .exit decl.ports).length) ↔
      ∀ port ∈ decl.ports, ∃ q, s.resolvePort loop port = .ok q := by
  refine (and_congr length_portsOfKind length_portsOfKind).trans
    ⟨fun h port hport => ?_, fun h => ?_⟩
  · cases hkind : port.value.kind with
    | entry => exact h.1 port (List.mem_filter.mpr ⟨hport, by simp [hkind]⟩)
    | exit => exact h.2 port (List.mem_filter.mpr ⟨hport, by simp [hkind]⟩)
  · exact ⟨fun port hport => h port (List.mem_filter.mp hport).1,
      fun port hport => h port (List.mem_filter.mp hport).1⟩

end Scope

end TensorLoops
