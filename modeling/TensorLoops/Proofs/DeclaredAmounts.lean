import TensorLoops.Compilation
import TensorLoops.Proofs.Relowering

namespace TensorLoops

/-- The number of iterations of a loop: that of the last override that names it, or else the
declared one. -/
def Overrides.amount (overrides : Overrides) (loop : LoopId) (declared : Extent) : Extent :=
  match overrides.reverse.find? (·.1 == loop) with
  | some entry => .known entry.2
  | none => declared

namespace Overrides

theorem amount_singleton (loop : LoopId) (n : UInt64) (id : LoopId) (declared : Extent) :
    amount [(loop, n)] id declared = if id = loop then .known n else declared := by
  by_cases h : id = loop
  · simp [amount, h]
  · simp [amount, h, Ne.symm h]

/-- Overrides that come later count more. -/
theorem amount_append (before after : Overrides) (loop : LoopId) (declared : Extent) :
    amount (before ++ after) loop declared = amount after loop (amount before loop declared) := by
  unfold amount
  rw [List.reverse_append, List.find?_append]
  cases List.find? (·.1 == loop) after.reverse <;> rfl

end Overrides

/-- The declaration with its number of iterations overridden. -/
def LoopDecl.declaring (decl : LoopDecl) (overrides : Overrides) : LoopDecl :=
  match loopId? decl.id.value with
  | some loop => { decl with workAmount := decl.workAmount.map (overrides.amount loop) }
  | none => decl

def Item.declaring (overrides : Overrides) : Item → Item
  | .loop decl => .loop (decl.map (·.declaring overrides))
  | .expression decl => .expression decl

/-- The kernel in which each overridden loop declares the number of iterations of the last override
that names it. -/
def Kernel.declaring (k : Kernel) (overrides : Overrides) : Kernel :=
  { k with items := k.items.map (Item.declaring overrides) }

namespace LoopTable

def declaring (t : LoopTable) (overrides : Overrides) : LoopTable where
  entries := t.entries.map fun x =>
    (x.1, { x.2 with workAmount := overrides.amount x.1 x.2.workAmount })
  ascending := by
    rw [List.map_map]
    exact t.ascending

theorem declaring_nil (t : LoopTable) : t.declaring [] = t := by
  apply LoopTable.ext
  exact List.map_id t.entries

theorem declaring_append (t : LoopTable) (before after : Overrides) :
    t.declaring (before ++ after) = (t.declaring before).declaring after := by
  apply LoopTable.ext
  simp [declaring, Overrides.amount_append]

end LoopTable

namespace Program

/-- The program with the numbers of iterations overridden and nothing else changed. -/
def declaring (p : Program) (overrides : Overrides) : Program :=
  { p with loops := p.loops.declaring overrides }

theorem declaring_nil (p : Program) : p.declaring [] = p := by
  unfold declaring
  rw [LoopTable.declaring_nil]

theorem declaring_append (p : Program) (before after : Overrides) :
    p.declaring (before ++ after) = (p.declaring before).declaring after := by
  unfold declaring
  rw [LoopTable.declaring_append]

theorem hasLoops_declaring (p : Program) (overrides : Overrides) :
    (p.declaring overrides).hasLoops = p.hasLoops := by
  simp [declaring, hasLoops, isEmpty, LoopTable.isEmpty, LoopTable.declaring]

end Program

namespace LoopDecl

theorem id_declaring (decl : LoopDecl) (overrides : Overrides) :
    (decl.declaring overrides).id = decl.id := by
  unfold declaring
  split <;> rfl

theorem ports_declaring (decl : LoopDecl) (overrides : Overrides) :
    (decl.declaring overrides).ports = decl.ports := by
  unfold declaring
  split <;> rfl

end LoopDecl

namespace Kernel

theorem loops_declaring (k : Kernel) (overrides : Overrides) :
    (k.declaring overrides).loops = k.loops.map (Located.map (·.declaring overrides)) := by
  unfold loops declaring
  rw [List.filterMap_map, List.map_filterMap]
  refine congrArg (List.filterMap · k.items) (funext fun item => ?_)
  cases item <;> rfl

theorem expressions_declaring (k : Kernel) (overrides : Overrides) :
    (k.declaring overrides).expressions = k.expressions := by
  unfold expressions declaring
  rw [List.filterMap_map]
  refine congrArg (List.filterMap · k.items) (funext fun item => ?_)
  cases item <;> rfl

end Kernel

namespace Acceptance

/-- The same loops, with their numbers of iterations overridden. -/
def declaring (a : Acceptance) (overrides : Overrides) : Acceptance where
  accepted := a.accepted.map fun x => (x.1, x.2.map (·.declaring overrides))
  problems := a.problems

theorem ids_declaring (a : Acceptance) (overrides : Overrides) :
    (a.declaring overrides).ids = a.ids := by
  simp [declaring, ids]

theorem first?_declaring (a : Acceptance) (overrides : Overrides) (loop : LoopId) :
    (a.declaring overrides).first? loop =
      (a.first? loop).map (Located.map (·.declaring overrides)) := by
  unfold first? declaring
  rw [List.find?_map, Option.map_map, Option.map_map]
  rfl

/-- Whether a declaration is accepted depends on its id alone. -/
theorem add_declaring (a : Acceptance) (overrides : Overrides) (decl : Located LoopDecl) :
    (a.declaring overrides).add (decl.map (·.declaring overrides)) =
      (a.add decl).declaring overrides := by
  unfold add
  simp only [Located.map, LoopDecl.id_declaring, first?_declaring]
  cases loopId? decl.value.id.value with
  | none => rfl
  | some loop =>
    dsimp only
    cases a.first? loop with
    | none => simp [declaring, Located.map]
    | some first => rfl

theorem ofLoops_declaring (decls : List (Located LoopDecl)) (overrides : Overrides) :
    ofLoops (decls.map (Located.map (·.declaring overrides))) =
      (ofLoops decls).declaring overrides := by
  have hfold : ∀ a : Acceptance,
      (decls.map (Located.map (·.declaring overrides))).foldl add (a.declaring overrides) =
        (decls.foldl add a).declaring overrides := by
    induction decls with
    | nil => exact fun a => rfl
    | cons decl decls ih =>
      intro a
      rw [List.map_cons, List.foldl_cons, add_declaring, ih, List.foldl_cons]
  exact hfold .empty

end Acceptance

/-- Lowering a kernel with overridden declarations gives the program with overridden records, and
the same problems. -/
theorem lower_declaring (k : Kernel) (overrides : Overrides) :
    (lower (k.declaring overrides)).program = (lower k).program.declaring overrides ∧
      (lower (k.declaring overrides)).problems = (lower k).problems := by
  have hids := Acceptance.ids_declaring (Acceptance.ofLoops k.loops) overrides
  unfold lower
  simp only [Kernel.loops_declaring, Kernel.expressions_declaring, Acceptance.ofLoops_declaring,
    hids]
  generalize Scope.ofExpressions (Acceptance.ofLoops k.loops).ids k.expressions = s
  have hnodup := Acceptance.nodup_ids k.loops
  constructor
  · have htable : s.loopTable ((Acceptance.ofLoops k.loops).declaring overrides) =
        (s.loopTable (Acceptance.ofLoops k.loops)).declaring overrides := by
      apply LoopTable.eq_of_perm
      refine (s.perm_loopTable (hids.symm ▸ hnodup)).trans ?_
      refine .trans (.of_eq ?_) ((s.perm_loopTable hnodup).map _).symm
      unfold Acceptance.declaring
      rw [List.map_map, List.map_map]
      refine List.map_congr_left fun x hx => ?_
      have hid := Acceptance.id_of_mem_accepted _ x hx
      simp [Located.map, LoopDecl.declaring, hid, Scope.loopRecord]
    simp only [htable, Program.declaring]
  · have hproblems : ∀ loop (decl : Located LoopDecl),
        s.loopProblems loop (decl.map (·.declaring overrides)) = s.loopProblems loop decl :=
      fun loop decl => by simp only [Scope.loopProblems, Located.map, LoopDecl.ports_declaring]
    simp only [Acceptance.declaring, List.flatMap_map, hproblems]

end TensorLoops
