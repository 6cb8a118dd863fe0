import TensorLoops.Proofs.PortOrder

namespace TensorLoops

/-- The extents at the positions `i` and `j` are numbers that do not fit, and up to the second one
there is nothing that does not fit the first one. -/
structure FirstClash (es : List Extent) (lhs rhs : UInt64) (i j : Nat) : Prop where
  different : lhs ≠ rhs
  lhs_ne_one : lhs ≠ 1
  rhs_ne_one : rhs ≠ 1
  lt : i < j
  left : es[i]? = some (.known lhs)
  right : es[j]? = some (.known rhs)
  fits : ∀ k < j, ∀ e, es[k]? = some e → e = .known 1 ∨ e = .known lhs

namespace Grouping

/-- Merging in order, beginning with one, comes to a number when each extent is one or this number;
it is one if there is no other. -/
theorem merged_chain_eq_known {es : List Extent} {n : UInt64} :
    ((leaf (.known 1)).chain es).merged = some (.known n) ↔
      (∀ e ∈ es, e = .known 1 ∨ e = .known n) ∧ (n = 1 ∨ .known n ∈ es) := by
  rw [merged_eq_known, leaves_chain]
  simp [leaves]

/-- A clash that merging in order comes to is the first clash. -/
theorem exists_firstClash_iff {es : List Extent} {lhs rhs : UInt64} :
    (∃ i j, FirstClash es lhs rhs i j) ↔
      ∃ before rest, es = before ++ .known rhs :: rest ∧
        ((leaf (.known 1)).chain before).merged = some (.known lhs) ∧
        (Extent.known lhs).Clash (.known rhs) := by
  constructor
  · intro h
    obtain ⟨i, j, h⟩ := h
    obtain ⟨hj, hright⟩ := List.getElem?_eq_some_iff.mp h.right
    refine ⟨es.take j, es.drop (j + 1), ?_, merged_chain_eq_known.mpr ⟨fun e he => ?_, .inr ?_⟩, ?_⟩
    · rw [← hright, List.getElem_cons_drop, List.take_append_drop]
    · obtain ⟨k, hk⟩ := List.mem_iff_getElem?.mp he
      rw [List.getElem?_take] at hk
      split at hk
      · rename_i hlt
        exact h.fits k hlt e hk
      · cases hk
    · refine List.mem_iff_getElem?.mpr ⟨i, ?_⟩
      rw [List.getElem?_take, if_pos h.lt, h.left]
    · exact Extent.clash_iff_known.mpr
        ⟨lhs, rhs, rfl, rfl, h.different, h.lhs_ne_one, h.rhs_ne_one⟩
  · intro h
    obtain ⟨before, rest, rfl, hmerged, hclash⟩ := h
    obtain ⟨x, y, hx, hy, hne, hx1, hy1⟩ := Extent.clash_iff_known.mp hclash
    cases hx
    cases hy
    obtain ⟨hall, hmem⟩ := merged_chain_eq_known.mp hmerged
    obtain ⟨i, hi⟩ := List.mem_iff_getElem?.mp (hmem.resolve_left hx1)
    have hlt : i < before.length := (List.getElem?_eq_some_iff.mp hi).1
    refine ⟨i, before.length, hne, hx1, hy1, hlt, ?_, by simp, fun k hk e he => ?_⟩
    · rw [List.getElem?_append_left hlt, hi]
    · rw [List.getElem?_append_left hk] at he
      exact hall e (List.mem_of_getElem? he)

end Grouping

section

variable {g : Graph} {ports : List LoopPort} {es : List Extent}

theorem walkedExtents_of_forall₂ (h : List.Forall₂ (fun p e => p.Walks g (· = e)) ports es) :
    (∀ p ∈ ports, p.Walks g fun _ => True) ∧ walkedExtents g ports = es := by
  unfold walkedExtents
  induction h with
  | nil => exact ⟨nofun, rfl⟩
  | cons hwalk _ ih =>
    obtain ⟨hwalks, hextents⟩ := ih
    refine ⟨List.forall_mem_cons.mpr ⟨hwalk.mono fun _ _ => trivial, hwalks⟩, ?_⟩
    have hextent := LoopPort.extent?_eq_some.mpr hwalk
    simp [hextent, hextents]

/-- Merging fails at an extent that clashes with what those in front of it have been merged to. -/
theorem mergeExtents_eq_error (h : List.Forall₂ (fun p e => p.Walks g (· = e)) ports es)
    {loop : LoopId} {amount : Extent} {t : Grouping} (ht : t.merged = some amount)
    {error : LoopError} :
    mergeExtents g loop amount ports = .error error ↔
      ∃ before e rest m, es = before ++ e :: rest ∧ (t.chain before).merged = some m ∧
        m.Clash e ∧ error = .incompatible loop m e := by
  induction h generalizing amount t with
  | nil => simp [mergeExtents]
  | @cons p e ports es hwalk _ ih =>
    obtain ⟨w, hw, rfl⟩ := hwalk
    have hnode : (t.node (.leaf w.extent)).merged = amount.merge? w.extent := by
      simp [Grouping.merged, ht]
    rw [mergeExtents, hw]
    dsimp only
    cases hm : amount.merge? w.extent with
    | none =>
      constructor
      · intro herror
        cases herror
        exact ⟨[], w.extent, es, amount, rfl, ht, hm, rfl⟩
      · intro hsplit
        obtain ⟨before, e, rest, m, hes, hmerged, -, rfl⟩ := hsplit
        cases before with
        | nil =>
          cases hes
          cases ht.symm.trans hmerged
          rfl
        | cons first before =>
          cases hes
          rw [Grouping.chain, Grouping.merged_chain_none (hnode.trans hm)] at hmerged
          cases hmerged
    | some merged =>
      refine (ih (hnode.trans hm)).trans ?_
      constructor
      · intro hsplit
        obtain ⟨before, e, rest, m, rfl, hmerged, hclash, rfl⟩ := hsplit
        exact ⟨w.extent :: before, e, rest, m, rfl, hmerged, hclash, rfl⟩
      · intro hsplit
        obtain ⟨before, e, rest, m, hes, hmerged, hclash, rfl⟩ := hsplit
        cases before with
        | nil =>
          cases hes
          cases ht.symm.trans hmerged
          rw [hclash] at hm
          cases hm
        | cons first before =>
          cases hes
          exact ⟨before, e, rest, m, rfl, hmerged, hclash, rfl⟩

end

namespace LoopRecord

/-- The moving ports, the entries before the exits, walk along axes of these extents. -/
def HasExtents (r : LoopRecord) (g : Graph) (es : List Extent) : Prop :=
  List.Forall₂ (fun p e => p.Walks g (· = e)) r.movingPorts es

/-- When all moving ports can be followed, merging their extents comes to a number exactly if each
of them is one or this number, which is one if there is no other. It comes to a dynamic extent only
if there is one among them, and it fails exactly with the first two that do not fit. -/
theorem mergedExtent_outcome {r : LoopRecord} {g : Graph} {es : List Extent}
    (h : r.HasExtents g es) (loop : LoopId) :
    (∀ n, r.mergedExtent g loop = .ok (.known n) ↔
      (∀ e ∈ es, e = .known 1 ∨ e = .known n) ∧ (n = 1 ∨ .known n ∈ es)) ∧
    (r.mergedExtent g loop = .ok .dynamic → .dynamic ∈ es) ∧
    ∀ error, r.mergedExtent g loop = .error error ↔
      ∃ lhs rhs i j, error = .incompatible loop (.known lhs) (.known rhs) ∧
        FirstClash es lhs rhs i j := by
  obtain ⟨hwalks, hextents⟩ := walkedExtents_of_forall₂ h
  have hok : ∀ m, r.mergedExtent g loop = .ok m ↔
      ((Grouping.leaf (.known 1)).chain es).merged = some m := by
    intro m
    rw [mergedExtent_eq_ok, extents, hextents]
    exact and_iff_right hwalks
  refine ⟨fun n => (hok _).trans Grouping.merged_chain_eq_known, fun hdynamic => ?_,
    fun error => ?_⟩
  · obtain ⟨hmem, -⟩ := Grouping.merged_eq_some ((hok _).mp hdynamic)
    rw [Grouping.leaves_chain] at hmem
    simpa [Grouping.leaves] using hmem
  · have hmerge : r.mergedExtent g loop = .error error ↔ _ :=
      mergeExtents_eq_error h (t := .leaf (.known 1)) rfl
    rw [hmerge]
    constructor
    · intro hsplit
      obtain ⟨before, e, rest, m, hes, hmerged, hclash, rfl⟩ := hsplit
      obtain ⟨lhs, rhs, rfl, rfl, -⟩ := Extent.clash_iff_known.mp hclash
      obtain ⟨i, j, hfirst⟩ :=
        Grouping.exists_firstClash_iff.mpr ⟨before, rest, hes, hmerged, hclash⟩
      exact ⟨lhs, rhs, i, j, rfl, hfirst⟩
    · intro hfirst
      obtain ⟨lhs, rhs, i, j, rfl, hfirst⟩ := hfirst
      obtain ⟨before, rest, hes, hmerged, hclash⟩ :=
        Grouping.exists_firstClash_iff.mp ⟨i, j, hfirst⟩
      exact ⟨before, _, rest, _, hes, hmerged, hclash, rfl⟩

/-- The load of three elements does not fit the first of the two loads of two. -/
theorem mergedExtent_outcome_loads :
    (loopOver .dynamic [3, 3, 5, 4]).HasExtents threeLoads
        [.known 2, .known 2, .known 3, .dynamic] ∧
      ∃ i j, FirstClash [.known 2, .known 2, .known 3, .dynamic] 2 3 i j := by
  have hextents : (loopOver .dynamic [3, 3, 5, 4]).HasExtents threeLoads
      [.known 2, .known 2, .known 3, .dynamic] :=
    .cons ⟨_, rfl, rfl⟩ (.cons ⟨_, rfl, rfl⟩ (.cons ⟨_, rfl, rfl⟩ (.cons ⟨_, rfl, rfl⟩ .nil)))
  obtain ⟨-, -, herror⟩ := mergedExtent_outcome hextents 0
  obtain ⟨lhs, rhs, i, j, heq, hfirst⟩ :=
    (herror (.incompatible 0 (.known 2) (.known 3))).mp (by decide)
  cases heq
  exact ⟨hextents, i, j, hfirst⟩

end LoopRecord

end TensorLoops
