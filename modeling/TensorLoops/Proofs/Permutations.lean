import Mathlib.Data.List.Nodup
import Mathlib.Data.List.Perm.Subperm
import TensorLoops.Layout

namespace TensorLoops

namespace Layout

variable {layout : Layout} {rank : Nat} {seen : List Nat}

/-- The check goes on behind an axis in range that has not been seen. -/
theorem marks_cons {axis : Nat} {rest : List Nat} :
    marks rank seen (axis :: rest) = true ↔
      axis < rank ∧ axis ∉ seen ∧ marks rank (axis :: seen) rest = true := by
  simp only [marks, Bool.and_eq_true, decide_eq_true_eq, Bool.not_eq_true',
    List.contains_eq_mem, decide_eq_false_iff_not, and_assoc]

/-- The axes are in range and differ from each other and from those seen before. -/
theorem marks_eq_true_iff :
    marks rank seen layout = true ↔
      (∀ axis ∈ layout, axis < rank ∧ axis ∉ seen) ∧ layout.Nodup := by
  induction layout generalizing seen with
  | nil => simp [marks]
  | cons axis rest ih =>
    rw [marks_cons, ih, List.forall_mem_cons, List.nodup_cons]
    constructor
    · rintro ⟨hlt, hseen, hrest, hnodup⟩
      have hfresh : axis ∉ rest := fun hm => (hrest axis hm).2 List.mem_cons_self
      refine ⟨⟨⟨hlt, hseen⟩, fun a ha => ?_⟩, hfresh, hnodup⟩
      exact ⟨(hrest a ha).1, fun hm => (hrest a ha).2 (List.mem_cons_of_mem _ hm)⟩
    · rintro ⟨⟨⟨hlt, hseen⟩, hrest⟩, hfresh, hnodup⟩
      refine ⟨hlt, hseen, fun a ha => ⟨(hrest a ha).1, fun hm => ?_⟩, hnodup⟩
      rcases List.mem_cons.mp hm with rfl | hm
      · exact hfresh ha
      · exact (hrest a ha).2 hm

/-- Different axes in range are all axes, since there are as many positions. -/
theorem perm_range_of_nodup (hnodup : layout.Nodup) (h : ∀ axis ∈ layout, axis < layout.length) :
    List.Perm layout (List.range layout.length) := by
  have hsub : layout ⊆ List.range layout.length := fun axis ha => List.mem_range.mpr (h axis ha)
  exact (hnodup.subperm hsub).perm_of_length_le (by simp)

/-- A layout that passes the check holds each axis once. -/
theorem perm_of_isPermutation (h : layout.isPermutation = true) :
    List.Perm layout (List.range layout.length) := by
  obtain ⟨hall, hnodup⟩ := marks_eq_true_iff.mp h
  exact perm_range_of_nodup hnodup fun axis ha => (hall axis ha).1

/-- A layout that holds each axis once passes the check. -/
theorem isPermutation_of_perm (h : List.Perm layout (List.range layout.length)) :
    layout.isPermutation = true := by
  have hlt : ∀ axis ∈ layout, axis < layout.length ∧ axis ∉ [] := fun axis ha =>
    ⟨List.mem_range.mp (h.mem_iff.mp ha), List.not_mem_nil⟩
  exact marks_eq_true_iff.mpr ⟨hlt, h.nodup_iff.mpr List.nodup_range⟩

/-- A layout in which no axis is missing and none occurs twice has room for no other. -/
theorem perm_range_iff_count :
    List.Perm layout (List.range layout.length) ↔
      ∀ axis < layout.length, layout.count axis = 1 := by
  constructor
  · intro h axis hlt
    rw [h.count_eq]
    exact List.nodup_iff_count_eq_one.mp List.nodup_range axis (List.mem_range.mpr hlt)
  · intro h
    have hsub : List.range layout.length ⊆ layout := by
      intro axis ha
      have hone := h axis (List.mem_range.mp ha)
      exact List.count_pos_iff.mp (by omega)
    exact ((List.nodup_range.subperm hsub).perm_of_length_le (by simp)).symm

/-- A layout of length `n` passes the check exactly when it is a rearrangement of `0, …, n - 1`,
that is, when each of them occurs in it exactly once. -/
theorem isPermutation_iff_each_once (layout : Layout) :
    (layout.isPermutation = true ↔ List.Perm layout (List.range layout.length)) ∧
      (layout.isPermutation = true ↔ ∀ axis < layout.length, layout.count axis = 1) := by
  have hperm : layout.isPermutation = true ↔ List.Perm layout (List.range layout.length) :=
    ⟨perm_of_isPermutation, isPermutation_of_perm⟩
  exact ⟨hperm, hperm.trans perm_range_iff_count⟩

/-- An axis that occurs twice, and one that is out of range. -/
example : isPermutation [2, 0, 1] = true ∧ isPermutation [0, 0, 1] = false ∧
    isPermutation [0, 3, 1] = false := by
  decide

end Layout

end TensorLoops
