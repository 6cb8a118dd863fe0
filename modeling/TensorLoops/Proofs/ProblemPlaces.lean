import TensorLoops.Lowering
import TensorLoops.Proofs.KernelPlaces

namespace TensorLoops

variable {P : Span → Prop}

/-- The other places that a problem points to satisfy `P`. -/
def Problem.AllPlaces (P : Span → Prop) (p : Problem) : Prop := ∀ note ∈ p.related, P note.span

/-- All places of problems satisfy `P`. -/
def Problem.Placed (P : Span → Prop) (ps : List (Located Problem)) : Prop :=
  ∀ p ∈ ps, p.AllPlaces P (Problem.AllPlaces P)

namespace Problem

theorem placed_nil : Placed P [] := fun _ hp => absurd hp List.not_mem_nil

theorem placed_append {ps qs : List (Located Problem)} :
    Placed P (ps ++ qs) ↔ Placed P ps ∧ Placed P qs := List.forall_mem_append

theorem placed_singleton {p : Problem} {span : Span} (hspan : P span) (hnotes : p.AllPlaces P) :
    Placed P [⟨p, span⟩] := List.forall_mem_singleton.mpr ⟨hspan, hnotes⟩

/-- A problem that points nowhere else. -/
theorem placed_of_related_nil {p : Problem} {span : Span} (hspan : P span) (hp : p.related = []) :
    Placed P [⟨p, span⟩] := by
  refine placed_singleton hspan fun note hnote => ?_
  rw [hp] at hnote
  cases hnote

end Problem

namespace Checked

variable {α β : Type} {x : Checked α} {y : Checked β}

def Placed (P : Span → Prop) (x : Checked α) : Prop := Problem.Placed P x.problems

theorem placed_ok (a : α) : Placed P (.ok a) := Problem.placed_nil

theorem placed_error {p : Problem} {span : Span} (hspan : P span) (hp : p.related = []) :
    Placed P (.error [⟨p, span⟩] : Checked α) := Problem.placed_of_related_nil hspan hp

theorem Placed.map (h : x.Placed P) (f : α → β) : Placed P (Except.map f x) := by
  cases x with
  | ok a => exact placed_ok (f a)
  | error ps => exact h

theorem Placed.both (hx : x.Placed P) (hy : y.Placed P) : (both x y).Placed P := by
  have happend := Problem.placed_append.mpr ⟨hx, hy⟩
  cases x with
  | error ps => cases y <;> exact happend
  | ok a =>
    cases y with
    | ok b => exact placed_ok (a, b)
    | error ps => exact happend

theorem Placed.all {xs : List (Checked α)} (h : ∀ x ∈ xs, x.Placed P) : (all xs).Placed P := by
  unfold Placed
  rw [problems_all]
  intro p hp
  obtain ⟨x, hx, hp⟩ := List.mem_flatMap.mp hp
  exact h x hx p hp

end Checked

open Checked

theorem placed_resolveType {type : Located TensorType} (h : type.value.AllPlaces P) :
    (resolveType type).Placed P := by
  unfold resolveType
  split
  · exact placed_error h.element rfl
  · dsimp only
    split
    · exact placed_ok _
    · rename_i axes haxes
      split
      · exact placed_error (h.layout axes haxes) rfl
      · split
        · exact placed_ok _
        · exact placed_error (h.layout axes haxes) rfl

namespace Scope

variable {s : Scope}

/-- The places that a scope remembers, and those of its problems, satisfy `P`. -/
structure Placed (P : Span → Prop) (s : Scope) : Prop where
  definitions : ∀ d ∈ s.definitions, P d.2.span
  problems : Problem.Placed P s.problems

theorem placed_empty : empty.Placed P :=
  ⟨fun _ hd => absurd hd List.not_mem_nil, Problem.placed_nil⟩

theorem Placed.span_of_definition? (h : s.Placed P) {name : String} {d : Definition}
    (hd : s.definition? name = some d) : P d.span := by
  obtain ⟨x, hx, rfl⟩ := Option.map_eq_some_iff.mp hd
  exact h.definitions x (List.mem_of_find?_eq_some hx)

theorem placed_resolveOperand {operand : Located Operand} (h : operand.value.AllPlaces P) :
    (s.resolveOperand operand).Placed P := by
  unfold resolveOperand
  dsimp only
  split
  · split
    · exact Problem.placed_nil
    · exact placed_error h.value rfl
  · split
    · exact placed_error h.value rfl
    · split
      · exact placed_ok _
      · rename_i type htype
        exact (placed_resolveType (h.type type htype).value).map _

theorem placed_resolveLoop (declared : List LoopId) {number : Located UInt64}
    (h : P number.span) :
    (resolveLoop declared number).Placed P := by
  unfold resolveLoop
  split
  · split
    · exact placed_ok _
    · exact placed_error h rfl
  · exact placed_error h rfl

theorem placed_resolveOutput (operation : Operation) {decl : Located ExpressionDecl}
    (h : decl.AllPlaces P (ExpressionDecl.AllPlaces P)) :
    (resolveOutput operation decl).Placed P := by
  unfold resolveOutput
  split
  · exact placed_ok _
  · split
    · exact placed_error h.span rfl
    · rename_i type htype
      exact (placed_resolveType (h.value.output type htype).value).map _

/-- A value that is defined twice is reported at its second place and points to its first. -/
theorem Placed.checkName (h : s.Placed P) {result : Option (Located String)}
    (hresult : ∀ name ∈ result, P name.span) : (s.checkName result).Placed P := by
  unfold Scope.checkName
  split
  · exact placed_ok _
  · rename_i name
    split
    · rename_i d hd
      exact Problem.placed_singleton (hresult name rfl)
        (List.forall_mem_singleton.mpr (h.span_of_definition? hd))
    · exact placed_ok _

theorem Placed.resolve (h : s.Placed P) (declared : List LoopId) {decl : Located ExpressionDecl}
    (hdecl : decl.AllPlaces P (ExpressionDecl.AllPlaces P)) :
    (s.resolve declared decl).Placed P := by
  have hoperands : (all (decl.value.operands.map s.resolveOperand)).Placed P :=
    .all (List.forall_mem_map.mpr fun operand hoperand =>
      placed_resolveOperand (hdecl.value.operands operand hoperand).value)
  have hloops : (all (decl.value.loops.map (resolveLoop declared))).Placed P :=
    .all (List.forall_mem_map.mpr fun number hnumber =>
      placed_resolveLoop declared (hdecl.value.loops number hnumber))
  unfold Scope.resolve
  split
  · exact placed_error hdecl.value.operation rfl
  · rename_i operation _
    split
    · rename_i ps hname
      have hplaced := h.checkName hdecl.value.result
      rwa [hname] at hplaced
    · split
      · exact placed_error hdecl.span rfl
      · split
        · rename_i ps houtput
          have hplaced := placed_resolveOutput operation hdecl
          rwa [houtput] at hplaced
        · exact (hoperands.both hloops).map _

theorem Placed.add (h : s.Placed P) (declared : List LoopId) {decl : Located ExpressionDecl}
    (hdecl : decl.AllPlaces P (ExpressionDecl.AllPlaces P)) : (s.add declared decl).Placed P := by
  have hresolve := h.resolve declared hdecl
  unfold Scope.add
  cases hresult : s.resolve declared decl with
  | ok r =>
    refine ⟨?_, h.problems⟩
    unfold define
    dsimp only
    split
    · rename_i name hname
      exact List.forall_mem_cons.mpr ⟨hdecl.value.result name hname, h.definitions⟩
    · exact h.definitions
  | error ps =>
    rw [hresult] at hresolve
    exact ⟨h.definitions, Problem.placed_append.mpr ⟨h.problems, hresolve⟩⟩

theorem placed_ofExpressions (declared : List LoopId) {decls : List (Located ExpressionDecl)}
    (h : ∀ decl ∈ decls, decl.AllPlaces P (ExpressionDecl.AllPlaces P)) :
    (ofExpressions declared decls).Placed P :=
  List.foldlRecOn decls _ placed_empty fun _ hs decl hdecl => hs.add declared (h decl hdecl)

theorem placed_resolvePort {loop : LoopId} {port : Located PortDecl}
    (h : port.AllPlaces P (PortDecl.AllPlaces P)) : (s.resolvePort loop port).Placed P := by
  unfold resolvePort
  dsimp only
  split
  · split
    · exact Problem.placed_nil
    · exact placed_error h.value.value rfl
  · split
    · exact placed_error h.span rfl
    · split
      · exact placed_error h.span rfl
      · split
        · exact placed_ok _
        · exact placed_error h.value.dim rfl

theorem placed_loopProblems {loop : LoopId} {decl : Located LoopDecl}
    (h : decl.AllPlaces P (LoopDecl.AllPlaces P)) :
    Problem.Placed P (s.loopProblems loop decl) := by
  refine Problem.placed_append.mpr ⟨fun p hp => ?_, ?_⟩
  · obtain ⟨port, hport, hp⟩ := List.mem_flatMap.mp hp
    exact placed_resolvePort (h.value.ports port hport) p hp
  · split
    · exact Problem.placed_of_related_nil h.span rfl
    · exact Problem.placed_nil

end Scope

namespace Acceptance

variable {a : Acceptance}

structure Placed (P : Span → Prop) (a : Acceptance) : Prop where
  accepted : ∀ x ∈ a.accepted, x.2.AllPlaces P (LoopDecl.AllPlaces P)
  problems : Problem.Placed P a.problems

theorem placed_empty : empty.Placed P :=
  ⟨fun _ hx => absurd hx List.not_mem_nil, Problem.placed_nil⟩

/-- A loop that is declared twice is reported at its second id and points to its first
declaration. -/
theorem Placed.add (h : a.Placed P) {decl : Located LoopDecl}
    (hdecl : decl.AllPlaces P (LoopDecl.AllPlaces P)) : (a.add decl).Placed P := by
  have hid := hdecl.value.id
  unfold Acceptance.add
  dsimp only
  split
  · exact ⟨h.accepted,
      Problem.placed_append.mpr ⟨h.problems, Problem.placed_of_related_nil hid rfl⟩⟩
  · split
    · rename_i loop _ first hfirst
      obtain ⟨x, hx, rfl⟩ := Option.map_eq_some_iff.mp hfirst
      have hnote := (h.accepted x (List.mem_of_find?_eq_some hx)).span
      refine ⟨h.accepted, Problem.placed_append.mpr ⟨h.problems, ?_⟩⟩
      exact Problem.placed_singleton hid (List.forall_mem_singleton.mpr hnote)
    · refine ⟨List.forall_mem_append.mpr ⟨h.accepted, ?_⟩, h.problems⟩
      exact List.forall_mem_singleton.mpr hdecl

theorem placed_ofLoops {decls : List (Located LoopDecl)}
    (h : ∀ decl ∈ decls, decl.AllPlaces P (LoopDecl.AllPlaces P)) : (ofLoops decls).Placed P :=
  List.foldlRecOn decls _ placed_empty fun _ ha decl hdecl => ha.add (h decl hdecl)

end Acceptance

namespace Kernel

variable {k : Kernel}

theorem AllPlaces.loops (h : k.AllPlaces P) :
    ∀ decl ∈ k.loops, decl.AllPlaces P (LoopDecl.AllPlaces P) :=
  fun _ hdecl => h.items _ (mem_loops.mp hdecl)

theorem AllPlaces.expressions (h : k.AllPlaces P) :
    ∀ decl ∈ k.expressions, decl.AllPlaces P (ExpressionDecl.AllPlaces P) :=
  fun _ hdecl => h.items _ (mem_expressions.mp hdecl)

end Kernel

/-- The problems of lowering stand at places of the kernel, and point to others of them. -/
theorem placed_lower {kernel : Kernel} (h : kernel.AllPlaces P) :
    Problem.Placed P (lower kernel).problems := by
  have hloops := Acceptance.placed_ofLoops h.loops
  have hscope := Scope.placed_ofExpressions (Acceptance.ofLoops kernel.loops).ids h.expressions
  refine Problem.placed_append.mpr ⟨Problem.placed_append.mpr
    ⟨hloops.problems, hscope.problems⟩, fun p hp => ?_⟩
  obtain ⟨⟨loop, decl⟩, hmem, hp⟩ := List.mem_flatMap.mp hp
  exact Scope.placed_loopProblems (hloops.accepted _ hmem) p hp

end TensorLoops
