import Mathlib.Data.List.Forall2
import TensorLoops.Lowering

namespace TensorLoops

namespace Checked

variable {α β : Type}

theorem both_eq_ok {a : Checked α} {b : Checked β} {x : α} {y : β} :
    both a b = .ok (x, y) ↔ a = .ok x ∧ b = .ok y := by
  cases a <;> cases b <;> simp [both]

/-- A list succeeds when each of its elements does. -/
theorem all_eq_ok {xs : List (Checked α)} {ys : List α} :
    all xs = .ok ys ↔ List.Forall₂ (fun x y => x = .ok y) xs ys := by
  induction xs generalizing ys with
  | nil => simp [all, eq_comm]
  | cons x xs ih =>
    unfold all
    constructor
    · intro h
      cases hb : both x (all xs) with
      | error ps => simp [hb, Except.map] at h
      | ok pair =>
        obtain ⟨hx, hxs⟩ := both_eq_ok.mp hb
        simp only [hb, Except.map, Except.ok.injEq] at h
        subst h
        exact .cons hx (ih.mp hxs)
    · intro h
      rcases h with _ | ⟨hx, hxs⟩
      rw [both_eq_ok.mpr ⟨hx, ih.mpr hxs⟩]
      rfl

end Checked

theorem loopId?_eq_some {number : UInt64} {loop : LoopId} :
    loopId? number = some loop ↔ number.toNat = loop.toNat := by
  unfold loopId?
  split
  · rename_i h
    rw [Option.some.injEq, ← UInt32.toNat_inj, UInt64.toNat_toUInt32, Nat.mod_eq_of_lt h]
  · rename_i h
    simp only [reduceCtorEq, false_iff]
    have hloop := loop.toNat_lt
    simp only [UInt32.size] at h
    omega

theorem ElementType.ofName?_eq_some {name : String} {t : ElementType} :
    ofName? name = some t ↔ name = t.name := by
  constructor
  · intro h
    exact (name_of_ofName? h).symm
  · intro h
    rw [h, ofName?_name]

theorem Operation.ofName?_eq_some {name : String} {op : Operation} :
    ofName? name = some op ↔ name = op.name := by
  constructor
  · intro h
    exact (name_of_ofName? h).symm
  · intro h
    rw [h, ofName?_name]

theorem resolveType_eq_ok {type : Located TensorType} {d : Descriptor} :
    resolveType type = .ok d ↔
      type.value.element.value = d.element.name ∧
        type.value.shape.map Located.value = d.shape ∧
        match type.value.layout with
        | none => d.layout = .identity d.shape.length
        | some axes => axes.value.length = d.shape.length ∧ axes.value.map UInt64.toNat = d.layout ∧
            d.layout.isPermutation = true := by
  obtain ⟨element, shape, layout⟩ := d
  rw [← ElementType.ofName?_eq_some]
  unfold resolveType
  cases ElementType.ofName? type.value.element.value with
  | none => simp
  | some t =>
    rw [Option.some.injEq]
    cases type.value.layout with
    | none =>
      simp only [Except.ok.injEq, Descriptor.dense, Descriptor.mk.injEq]
      constructor
      · intro h
        obtain ⟨rfl, rfl, rfl⟩ := h
        exact ⟨rfl, rfl, rfl⟩
      · intro h
        obtain ⟨rfl, rfl, rfl⟩ := h
        exact ⟨rfl, rfl, rfl⟩
    | some axes =>
      dsimp only
      split
      · rename_i hlen
        simp only [reduceCtorEq, false_iff]
        intro h
        obtain ⟨-, rfl, hl, -⟩ := h
        exact hlen hl
      · rename_i hlen
        split
        · rename_i hperm
          simp only [Except.ok.injEq, Descriptor.mk.injEq]
          constructor
          · intro h
            obtain ⟨rfl, rfl, rfl⟩ := h
            exact ⟨rfl, rfl, not_not.mp hlen, rfl, hperm⟩
          · intro h
            obtain ⟨rfl, rfl, -, rfl, -⟩ := h
            exact ⟨rfl, rfl, rfl⟩
        · rename_i hperm
          simp only [reduceCtorEq, false_iff]
          intro h
          obtain ⟨-, -, -, rfl, hp⟩ := h
          exact hperm hp

namespace Scope

theorem resolveOperand_eq_ok {s : Scope} {operand : Located Operand} {slot : Slot} :
    s.resolveOperand operand = .ok slot ↔
      ∃ d produced, s.definition? operand.value.value.value = some d ∧
        s.resultSlot? d.expr = some produced ∧ slot.connector = produced.connector ∧
        match operand.value.type with
        | none => slot.descriptor = produced.descriptor
        | some type => resolveType type = .ok slot.descriptor := by
  unfold resolveOperand
  dsimp only
  constructor
  · intro h
    cases hd : s.definition? operand.value.value.value with
    | none =>
      rw [hd] at h
      dsimp only at h
      split at h <;> cases h
    | some d =>
      cases hs : s.resultSlot? d.expr with
      | none =>
        simp only [hd, hs] at h
        cases h
      | some produced =>
        refine ⟨d, produced, rfl, hs, ?_⟩
        simp only [hd, hs] at h
        cases ht : operand.value.type with
        | none =>
          rw [ht] at h
          cases h
          exact ⟨rfl, rfl⟩
        | some type =>
          cases hr : resolveType type with
          | error ps =>
            simp only [ht, hr] at h
            cases h
          | ok t =>
            simp only [ht, hr] at h
            cases h
            exact ⟨rfl, hr⟩
  · intro h
    obtain ⟨d, produced, hd, hs, hc, ht⟩ := h
    obtain ⟨descriptor, connector⟩ := slot
    obtain ⟨descriptor', connector'⟩ := produced
    dsimp only at hc ht
    subst hc
    simp only [hd, hs]
    cases htype : operand.value.type with
    | none =>
      rw [htype] at ht
      dsimp only at ht
      rw [ht]
    | some type =>
      rw [htype] at ht
      dsimp only at ht ⊢
      rw [ht]
      rfl

theorem resolveLoop_eq_ok {declared : List LoopId} {number : Located UInt64} {loop : LoopId} :
    resolveLoop declared number = .ok loop ↔
      number.value.toNat = loop.toNat ∧ loop ∈ declared := by
  rw [← loopId?_eq_some]
  unfold resolveLoop
  cases loopId? number.value with
  | none => simp
  | some l =>
    dsimp only
    split
    · rename_i h
      simp only [Except.ok.injEq, Option.some.injEq]
      constructor
      · intro h
        subst h
        exact ⟨rfl, List.contains_iff_mem.mp h⟩
      · exact And.left
    · rename_i h
      simp only [reduceCtorEq, Option.some.injEq, false_iff]
      intro h
      obtain ⟨rfl, hm⟩ := h
      exact h (List.contains_iff_mem.mpr hm)

theorem resolveOutput_eq_ok {operation : Operation} {decl : Located ExpressionDecl}
    {output : Option Descriptor} :
    resolveOutput operation decl = .ok output ↔
      operation.outputs = 0 ∧ output = none ∨
        operation.outputs ≠ 0 ∧ ∃ type d, decl.value.output = some type ∧
          resolveType type = .ok d ∧ output = some d := by
  unfold resolveOutput
  by_cases ho : operation.outputs = 0
  · simp [ho, eq_comm]
  · cases decl.value.output with
    | none => simp [ho]
    | some type => cases hr : resolveType type <;> simp [ho, hr, Except.map, eq_comm]

theorem checkName_eq_ok {s : Scope} {result : Option (Located String)} :
    s.checkName result = .ok () ↔ ∀ name ∈ result, s.definition? name.value = none := by
  cases result with
  | none => simp [checkName]
  | some name => cases hd : s.definition? name.value <;> simp [checkName, hd]

/-- An expression is resolved when each part of its declaration is. -/
theorem resolve_eq_ok {s : Scope} {declared : List LoopId} {decl : Located ExpressionDecl}
    {r : Resolved} :
    s.resolve declared decl = .ok r ↔
      decl.value.operation.value = r.operation.name ∧
        (∀ name ∈ decl.value.result, s.definition? name.value = none) ∧
        decl.value.operands.length = r.operation.inputs ∧
        resolveOutput r.operation decl = .ok r.output ∧
        List.Forall₂ (fun o slot => s.resolveOperand o = .ok slot) decl.value.operands r.inputs ∧
        List.Forall₂ (fun n loop => resolveLoop declared n = .ok loop) decl.value.loops
          r.loops := by
  obtain ⟨operation, inputs, output, loops⟩ := r
  rw [← Operation.ofName?_eq_some, ← checkName_eq_ok, ← List.forall₂_map_left_iff (f := s.resolveOperand)
    (R := fun x y => x = .ok y), ← Checked.all_eq_ok,
    ← List.forall₂_map_left_iff (f := resolveLoop declared) (R := fun x y => x = .ok y),
    ← Checked.all_eq_ok]
  unfold resolve
  cases Operation.ofName? decl.value.operation.value with
  | none => simp
  | some op =>
    rw [Option.some.injEq]
    cases hc : s.checkName decl.value.result with
    | error ps => simp
    | ok u =>
      dsimp only
      split
      · rename_i hlen
        simp only [reduceCtorEq, false_iff]
        intro h
        obtain ⟨rfl, -, hl, -⟩ := h
        exact hlen hl
      · rename_i hlen
        cases hout : resolveOutput op decl with
        | error ps =>
          simp only [reduceCtorEq, false_iff]
          intro h
          obtain ⟨rfl, -, -, ho', -⟩ := h
          rw [hout] at ho'
          cases ho'
        | ok out =>
          cases hb : Checked.both (.all (decl.value.operands.map s.resolveOperand))
              (.all (decl.value.loops.map (resolveLoop declared))) with
          | error ps =>
            simp only [Except.map, reduceCtorEq, false_iff]
            intro h
            obtain ⟨-, -, -, -, hi, hl⟩ := h
            rw [Checked.both_eq_ok.mpr ⟨hi, hl⟩] at hb
            cases hb
          | ok pair =>
            obtain ⟨hi, hl⟩ := Checked.both_eq_ok.mp hb
            simp only [Except.map, Except.ok.injEq, Resolved.mk.injEq, hi, hl]
            constructor
            · intro h
              obtain ⟨rfl, rfl, rfl, rfl⟩ := h
              exact ⟨rfl, trivial, not_not.mp hlen, hout, rfl, rfl⟩
            · intro h
              obtain ⟨rfl, -, -, ho', rfl, rfl⟩ := h
              rw [hout] at ho'
              exact ⟨rfl, rfl, Except.ok.inj ho', rfl⟩

end Scope

end TensorLoops
