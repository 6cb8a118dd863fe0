import TensorLoops.Proofs.Broadcast
import TensorLoops.WorkAmount

namespace TensorLoops

namespace LoopPort

/-- The loop walks along an axis of the port whose extent satisfies `P`. -/
def Walks (p : LoopPort) (g : Graph) (P : Extent → Prop) : Prop :=
  ∃ w, p.walk g = .ok w ∧ P w.extent

instance (p : LoopPort) (g : Graph) (P : Extent → Prop) [DecidablePred P] :
    Decidable (p.Walks g P) :=
  match h : p.walk g with
  | .ok w => decidable_of_iff (P w.extent) (by simp [Walks, h])
  | .error _ => isFalse (by simp [Walks, h])

theorem Walks.mono {p : LoopPort} {g : Graph} {P Q : Extent → Prop} (h : p.Walks g P)
    (hPQ : ∀ e, P e → Q e) : p.Walks g Q := by
  obtain ⟨w, hw, hP⟩ := h
  exact ⟨w, hw, hPQ _ hP⟩

/-- The extent of the walked axis, if there is such an axis. -/
def extent? (p : LoopPort) (g : Graph) : Option Extent :=
  match p.walk g with
  | .ok w => some w.extent
  | .error _ => none

theorem extent?_eq_some {p : LoopPort} {g : Graph} {e : Extent} :
    p.extent? g = some e ↔ p.Walks g (· = e) := by
  unfold extent? Walks
  cases p.walk g <;> simp

end LoopPort

/-- The extents that `ports` walk, in order. -/
def walkedExtents (g : Graph) (ports : List LoopPort) : List Extent :=
  ports.filterMap (·.extent? g)

theorem mem_walkedExtents {g : Graph} {ports : List LoopPort} {e : Extent} :
    e ∈ walkedExtents g ports ↔ ∃ p ∈ ports, p.Walks g (· = e) := by
  simp only [walkedExtents, List.mem_filterMap, LoopPort.extent?_eq_some]

theorem walks_of_walkedExtents {g : Graph} {ports : List LoopPort} {P : Extent → Prop}
    (hwalks : ∀ p ∈ ports, p.Walks g fun _ => True) (h : ∀ e ∈ walkedExtents g ports, P e) :
    ∀ p ∈ ports, p.Walks g P := by
  intro p hp
  obtain ⟨w, hw, -⟩ := hwalks p hp
  exact ⟨w, hw, h _ (mem_walkedExtents.mpr ⟨p, hp, w, hw, rfl⟩)⟩

/-- Merging succeeds when every port can be followed and the extents, merged in order after those
of `t`, come to a result. -/
theorem mergeExtents_eq_ok {g : Graph} {loop : LoopId} {amount m : Extent} {ports : List LoopPort}
    {t : Grouping} (ht : t.merged = some amount) :
    mergeExtents g loop amount ports = .ok m ↔
      (∀ p ∈ ports, p.Walks g fun _ => True) ∧
        (t.chain (walkedExtents g ports)).merged = some m := by
  induction ports generalizing amount t with
  | nil => simp [mergeExtents, walkedExtents, Grouping.chain, ht]
  | cons p rest ih =>
    rw [List.forall_mem_cons, mergeExtents]
    cases hw : p.walk g with
    | error e => simp [LoopPort.Walks, hw]
    | ok w =>
      have hextents : walkedExtents g (p :: rest) = w.extent :: walkedExtents g rest := by
        simp [walkedExtents, LoopPort.extent?, hw]
      have hnode : (Grouping.node t (.leaf w.extent)).merged = amount.merge? w.extent := by
        simp [Grouping.merged, ht]
      have hp : p.Walks g fun _ => True := ⟨w, hw, trivial⟩
      rw [hextents, Grouping.chain]
      simp only [hp, true_and]
      cases hm : amount.merge? w.extent with
      | none => simp [Grouping.merged_chain_none (hnode.trans hm)]
      | some merged => exact ih (hnode.trans hm)

/-- When every port can be followed, merging fails only because two extents do not fit. -/
theorem mergeExtents_of_walks {g : Graph} {ports : List LoopPort}
    (h : ∀ p ∈ ports, p.Walks g fun _ => True) (loop : LoopId) (amount : Extent) :
    (∃ m, mergeExtents g loop amount ports = .ok m) ∨
      ∃ lhs rhs, mergeExtents g loop amount ports = .error (.incompatible loop lhs rhs) := by
  induction ports generalizing amount with
  | nil => exact .inl ⟨amount, rfl⟩
  | cons p rest ih =>
    obtain ⟨⟨w, hw, -⟩, hrest⟩ := List.forall_mem_cons.mp h
    rw [mergeExtents, hw]
    dsimp only
    cases hm : amount.merge? w.extent with
    | none => exact .inr ⟨amount, w.extent, rfl⟩
    | some merged => exact ih hrest merged

/-- The merged extent is one, or one that a port walks, and all walked extents give way to it. -/
theorem mergeExtents_sound {g : Graph} {loop : LoopId} {ports : List LoopPort} {m : Extent}
    (h : mergeExtents g loop (.known 1) ports = .ok m) :
    (m = .known 1 ∨ m ∈ walkedExtents g ports) ∧ ∀ p ∈ ports, p.Walks g (·.GivesWay m) := by
  obtain ⟨hwalks, hmerged⟩ := (mergeExtents_eq_ok (t := .leaf (.known 1)) rfl).mp h
  obtain ⟨hmem, hall⟩ := Grouping.merged_eq_some hmerged
  rw [Grouping.leaves_chain] at hmem hall
  constructor
  · simpa [Grouping.leaves] using hmem
  · exact walks_of_walkedExtents hwalks fun e he => hall e (List.mem_append_right _ he)

/-- Walked extents of which no two clash can be merged. -/
theorem exists_mergeExtents {g : Graph} {ports : List LoopPort}
    (hwalks : ∀ p ∈ ports, p.Walks g fun _ => True)
    (h : ∀ a ∈ walkedExtents g ports, ∀ b ∈ walkedExtents g ports, ¬ a.Clash b)
    (loop : LoopId) :
    ∃ m, mergeExtents g loop (.known 1) ports = .ok m := by
  obtain ⟨m, hm⟩ :=
    Grouping.exists_merged (t := (Grouping.leaf (.known 1)).chain (walkedExtents g ports)) <| by
      rw [Grouping.leaves_chain]
      intro a ha b hb
      rcases List.mem_cons.mp ha with ha | ha
      · exact Extent.not_clash_of_one (.inl ha)
      · rcases List.mem_cons.mp hb with hb | hb
        · exact Extent.not_clash_of_one (.inr hb)
        · exact h a ha b hb
  exact ⟨m, (mergeExtents_eq_ok rfl).mpr ⟨hwalks, hm⟩⟩

/-- Walked extents that give way to a number are merged into one that gives way to it. -/
theorem mergeExtents_of_givesWay {g : Graph} {ports : List LoopPort} {n : UInt64}
    (h : ∀ p ∈ ports, p.Walks g (·.GivesWay (.known n))) (loop : LoopId) :
    ∃ m, mergeExtents g loop (.known 1) ports = .ok m ∧ m.GivesWay (.known n) := by
  have hgives : ∀ e ∈ walkedExtents g ports, e.GivesWay (.known n) := by
    intro e he
    obtain ⟨p, hp, w, hw, rfl⟩ := mem_walkedExtents.mp he
    obtain ⟨w', hw', hw'gives⟩ := h p hp
    cases hw.symm.trans hw'
    exact hw'gives
  obtain ⟨m, hm⟩ := exists_mergeExtents (fun p hp => (h p hp).mono fun _ _ => trivial)
    (fun a ha b hb => Extent.not_clash_of_known (hgives a ha) (hgives b hb)) loop
  refine ⟨m, hm, ?_⟩
  rcases (mergeExtents_sound hm).1 with rfl | hmem
  · exact Extent.one_givesWay _
  · exact hgives m hmem

namespace LoopRecord

/-- The extents that the moving ports walk, in order. -/
def extents (r : LoopRecord) (g : Graph) : List Extent := walkedExtents g r.movingPorts

/-- Every moving port can be followed, along an axis whose extent satisfies `P`. -/
def Walks (r : LoopRecord) (g : Graph) (P : Extent → Prop) : Prop :=
  ∀ q ∈ r.movingPorts, q.Walks g P

instance (r : LoopRecord) (g : Graph) (P : Extent → Prop) [DecidablePred P] :
    Decidable (r.Walks g P) := inferInstanceAs (Decidable (∀ q ∈ _, _))

theorem Walks.mono {r : LoopRecord} {g : Graph} {P Q : Extent → Prop} (h : r.Walks g P)
    (hPQ : ∀ e, P e → Q e) : r.Walks g Q := fun q hq => (h q hq).mono hPQ

/-- The number of iterations is merged from the extents in order, beginning with one. -/
theorem mergedExtent_eq_ok {r : LoopRecord} {g : Graph} {loop : LoopId} {m : Extent} :
    r.mergedExtent g loop = .ok m ↔ (r.Walks g fun _ => True) ∧
      ((Grouping.leaf (.known 1)).chain (r.extents g)).merged = some m :=
  mergeExtents_eq_ok rfl

end LoopRecord

end TensorLoops
