import TensorLoops.Proofs.Calls
import TensorLoops.Proofs.Lookups
import TensorLoops.Proofs.Settled
import TensorLoops.Proofs.WalkedExtents

namespace TensorLoops

namespace LoopPort

variable {q : LoopPort} {g : Graph} {loop : LoopId}

/-- What is looked up for a port depends on its place alone. -/
theorem Found.of_place {q' : LoopPort} (h : q'.Found g loop) (hplace : q'.place = q.place) :
    q.Found g loop := by
  obtain ⟨hport, hdim⟩ := Prod.mk.inj hplace
  obtain ⟨hwalk, hpointer⟩ := h
  exact ⟨walk_congr hport hdim g ▸ hwalk, hport ▸ hpointer⟩

theorem Found.result_refresh (h : q.Found g loop) (workAmount : Extent) :
    (q.refresh g workAmount).result = .ok () := by
  obtain ⟨w, hw⟩ := h.walk
  cases hmoves : q.incremented with
  | false => rw [refresh_of_fixed hmoves]; rfl
  | true => rw [refresh_of_walk hmoves hw]; rfl

theorem Found.descriptor (h : q.Found g loop) : ∃ d, g.descriptor q.port = .ok d := by
  obtain ⟨w, hw⟩ := h.walk
  unfold LoopPort.walk at hw
  cases hd : g.descriptor q.port with
  | ok d => exact ⟨d, rfl⟩
  | error e =>
    rw [hd] at hw
    cases hw

theorem Found.result_resolve (h : q.Found g loop) (workAmount : Extent) (mode : Mode) :
    (q.resolve g loop workAmount mode).result = .ok () := by
  cases mode with
  | callTime =>
    have hrefresh := Attempt.reaches_state (h.result_refresh workAmount)
    exact (reaches_resolve_callTime.mpr hrefresh).1
  | full =>
    obtain ⟨pointer, hp⟩ := h.pointer
    obtain ⟨d, hd⟩ := h.descriptor
    have hclassified : { q with incremented := pointer.moves q.incremented
                                dataSize := d.element.size }.Found g loop := h.of_place rfl
    have hrefresh := Attempt.reaches_state (hclassified.result_refresh workAmount)
    exact (reaches_resolve_full.mpr ⟨pointer, d, hp, hd, hrefresh⟩).1

end LoopPort

namespace LoopRecord

variable {r : LoopRecord} {g : Graph} {loop : LoopId}

theorem result_refresh (h : ∀ q ∈ r.ports, q.Found g loop) (workAmount : Extent) :
    (r.refresh g loop workAmount).result = .ok () :=
  result_eachPort fun q hq => (h q hq).result_refresh workAmount

/-- A record is resolved unless the extents of its moving ports do not fit. -/
theorem result_resolve (h : ∀ q ∈ r.ports, q.Found g loop) (mode : Mode) :
    (r.resolve g loop mode).result = .ok () ∨
      ∃ lhs rhs, (r.resolve g loop mode).result = .error (.incompatible loop lhs rhs) := by
  have hamount : (∃ workAmount, r.resolvedAmount g loop = .ok workAmount) ∨
      ∃ lhs rhs, r.resolvedAmount g loop = .error (.incompatible loop lhs rhs) := by
    unfold resolvedAmount
    split
    · refine mergeExtents_of_walks (fun q hq => ?_) loop (.known 1)
      obtain ⟨w, hw⟩ := (h q (List.mem_filter.mp hq).1).walk
      exact ⟨w, hw, trivial⟩
    · exact .inl ⟨r.workAmount, rfl⟩
  unfold resolve
  rcases hamount with ⟨workAmount, hw⟩ | ⟨lhs, rhs, herror⟩
  · rw [hw]
    exact .inl (result_eachPort fun q hq => (h q hq).result_resolve workAmount mode)
  · rw [herror]
    exact .inr ⟨lhs, rhs, rfl⟩

end LoopRecord

namespace Program

/-- Everything that calls look up is there. -/
def Found (p : Program) : Prop := ∀ x ∈ p.loops.entries, ∀ q ∈ x.2.ports, q.Found p.graph x.1

/-- Calls keep the places of the ports, so they do not lose anything. -/
theorem Found.after {p : Program} (h : p.Found) (calls : List Call) : (p.after calls).Found := by
  obtain ⟨hgraph, hplaces⟩ := p.after_keeps calls
  intro x hx q hq
  obtain ⟨y, hy, hid, hports⟩ := LoopTable.mem_of_places hplaces hx
  obtain ⟨q', hq', hplace⟩ := LoopRecord.mem_ports_of_places hports hq
  rw [hgraph, ← hid]
  exact (h y hy q' hq').of_place hplace

theorem Found.result_resolve {p : Program} (h : p.Found) (mode : Mode) :
    (∃ changed, (p.resolve mode).result = .ok changed) ∨
      ∃ loop lhs rhs, (p.resolve mode).result = .error (.incompatible loop lhs rhs) := by
  unfold resolve
  split
  · rcases p.loops.result_each (fun loop r => r.resolve p.graph loop mode) with
      hok | ⟨x, hx, e, hrecord, herror⟩
    · exact .inl ⟨true, by simp [Attempt.withResult, Attempt.mapState, hok, Except.map]⟩
    · right
      rcases LoopRecord.result_resolve (h x hx) mode with hok | ⟨lhs, rhs, hincompatible⟩
      · rw [hok] at hrecord
        cases hrecord
      · cases hincompatible.symm.trans hrecord
        exact ⟨x.1, lhs, rhs,
          by simp [Attempt.withResult, Attempt.mapState, herror, Except.map]⟩
  · exact .inl ⟨false, rfl⟩

theorem Found.result_refreshLoop {p : Program} (h : p.Found) (loop : LoopId) (amount : Extent) :
    (p.refreshLoop loop amount).result =
      if loop ∈ p.loops.ids then .ok () else .error (.missingLoop loop) := by
  unfold refreshLoop
  cases hget : p.loops.get? loop with
  | none =>
    rw [onLoop_of_missing hget, if_neg (LoopTable.get?_eq_none.mp hget)]
    rfl
  | some r =>
    have hmem := LoopTable.mem_of_get? hget
    have hid : loop ∈ p.loops.ids := List.mem_map_of_mem hmem
    rw [onLoop_of_get? hget, if_pos hid]
    exact LoopRecord.result_refresh (h _ hmem) amount

end Program

/-- The kernel declares the loop. -/
def Kernel.DeclaresLoop (k : Kernel) (loop : LoopId) : Prop :=
  ∃ decl ∈ k.loops, decl.value.id.value.toNat = loop.toNat

instance (k : Kernel) (loop : LoopId) : Decidable (k.DeclaresLoop loop) :=
  inferInstanceAs (Decidable (∃ decl ∈ _, _))

theorem mem_ids_lower {kernel : Kernel} {loop : LoopId} :
    loop ∈ (lower kernel).program.loops.ids ↔ kernel.DeclaresLoop loop := by
  rw [(perm_ids_lower kernel).mem_iff, Acceptance.mem_ids_ofLoops]
  simp only [Kernel.DeclaresLoop, loopId?_eq_some]

/-- After any calls on a lowered program, whether these have failed or not and whatever lowering has
reported: a run succeeds or finds two extents that do not fit, and a refresh succeeds if the kernel
declares the loop and reports a missing loop if it does not. -/
theorem result_after_lower (kernel : Kernel) (calls : List Call) :
    (∀ mode, (∃ changed,
        (((lower kernel).program.after calls).resolve mode).result = .ok changed) ∨
      ∃ loop lhs rhs, (((lower kernel).program.after calls).resolve mode).result =
        .error (.incompatible loop lhs rhs)) ∧
    ∀ loop amount, (((lower kernel).program.after calls).refreshLoop loop amount).result =
      if kernel.DeclaresLoop loop then .ok () else .error (.missingLoop loop) := by
  have hwell := Program.wellFormed_of_assembled (assembled_lower kernel) (fits_lower kernel)
  have hfound : ((lower kernel).program.after calls).Found := Program.Found.after hwell.found calls
  refine ⟨hfound.result_resolve, fun loop amount => ?_⟩
  have hids : loop ∈ ((lower kernel).program.after calls).loops.ids ↔ kernel.DeclaresLoop loop := by
    rw [LoopTable.ids_of_places ((lower kernel).program.after_keeps calls).2]
    exact mem_ids_lower
  simp only [hfound.result_refreshLoop, hids]

end TensorLoops
