import TensorLoops.Proofs.Consistency
import TensorLoops.Proofs.Rerun

namespace TensorLoops

namespace LoopPort

variable {p : LoopPort} {g : Graph} {loop : LoopId} {workAmount : Extent}

theorem Settled.stays_eq_true (h : p.Settled g loop workAmount) : p.stays = true := by
  unfold stays
  cases hi : p.incremented with
  | true => rfl
  | false => simp [h.stays hi]

theorem Settled.rewinds_eq_true (h : p.Settled g loop workAmount) :
    p.rewinds workAmount = true := by
  rw [LoopPort.rewinds, beq_iff_eq]
  exact h.toComputed.rewinds

theorem Settled.dataSize_pos (h : p.Settled g loop workAmount) : 0 < p.dataSize := by
  obtain ⟨d, -, hsize⟩ := h.measured
  rw [hsize]
  exact d.element.size_pos

end LoopPort

namespace LoopRecord

/-- A number of iterations that a full run has merged is accepted. The ports that have stopped
moving only take extents out of the merge. -/
theorem isConsistent_resolve {r r' : LoopRecord} {g : Graph} {loop : LoopId}
    (h : (r.resolve g loop .full).Reaches r') (hr : r.workAmount = .dynamic) :
    r'.isConsistent g loop = true := by
  cases hn : r'.workAmount with
  | dynamic => exact isConsistent_of_dynamicAmount hn g loop
  | known n =>
    have hmerged := (settled_resolve h).1
    rw [resolvedAmount_of_dynamic hr, hn] at hmerged
    have hall := (mergeExtents_sound hmerged).2
    have hsurviving : ∀ p ∈ r.survivingPorts g loop, p.Walks g (·.GivesWay (.known n)) :=
      fun p hp => hall p (List.mem_filter.mp hp).1
    obtain ⟨m, hm, hgives⟩ := mergeExtents_of_givesWay hsurviving loop
    exact (isConsistent_iff hn).mpr ⟨m, (mergedExtent_of_reaches h).trans hm, .inr hgives⟩

end LoopRecord

namespace Program

/-- The ports of every loop are settled for its number of iterations. -/
def Settled (p : Program) : Prop := ∀ x ∈ p.loops.entries, x.2.Settled p.graph x.1

theorem Settled.certificate {p : Program} (h : p.Settled) :
    p.certificate.fixedPortsStay = true ∧ p.certificate.finalizationRewinds = true ∧
      p.certificate.dataSizeSet = true := by
  simp only [Program.certificate, List.all_eq_true, decide_eq_true_eq]
  exact ⟨fun x hx q hq => (h x hx q hq).stays_eq_true,
    fun x hx q hq => (h x hx q hq).rewinds_eq_true, fun x hx q hq => (h x hx q hq).dataSize_pos⟩

theorem hasLoops_of_resolve {p : Program} {mode : Mode} (h : (p.resolve mode).result = .ok true) :
    p.hasLoops = true := by
  cases hl : p.hasLoops with
  | true => rfl
  | false => simp [resolve, hl, Attempt.done] at h

/-- The records of a program after a full run come from records of the program before. -/
theorem mem_resolve {p : Program} (h : (p.resolve .full).result = .ok true)
    {y : LoopId × LoopRecord} (hy : y ∈ (p.resolve .full).state.loops.entries) :
    ∃ r, (y.1, r) ∈ p.loops.entries ∧ (r.resolve p.graph y.1 .full).Reaches y.2 := by
  have heach := LoopTable.reaches_each.mp (reaches_resolve (hasLoops_of_resolve h) ⟨true, h⟩)
  obtain ⟨x, hx, hid, hr⟩ := forall₂_mem_right heach hy
  rw [hid]
  exact ⟨x.2, hx, hr⟩

theorem settled_resolve {p : Program} (h : (p.resolve .full).result = .ok true) :
    (p.resolve .full).state.Settled := by
  intro y hy
  obtain ⟨r, -, hr⟩ := mem_resolve h hy
  rw [graph_resolve]
  exact (LoopRecord.settled_resolve hr).2

theorem Settled.refreshLoop {p : Program} (hs : p.Settled) {loop : LoopId} {amount : Extent}
    (h : (p.refreshLoop loop amount).result = .ok ()) :
    (p.refreshLoop loop amount).state.Settled := by
  intro x hx
  rw [graph_refreshLoop]
  rcases mem_refreshLoop h hx with hx | ⟨r, hmem, hid, hr⟩
  · exact hs x hx
  · rw [hid]
    exact (hs _ hmem).refresh hr

/-- The number of iterations of a loop is accepted unless `Given` holds of the loop. -/
def ConsistentUnless (p : Program) (Given : LoopId → Prop) : Prop :=
  ∀ x ∈ p.loops.entries, x.2.isConsistent p.graph x.1 = true ∨ Given x.1

theorem consistentUnless_resolve {p : Program} (h : (p.resolve .full).result = .ok true)
    {Given : LoopId → Prop}
    (hgiven : ∀ x ∈ p.loops.entries, x.2.workAmount = .dynamic ∨ Given x.1) :
    (p.resolve .full).state.ConsistentUnless Given := by
  intro y hy
  obtain ⟨r, hmem, hr⟩ := mem_resolve h hy
  rw [graph_resolve]
  exact (hgiven _ hmem).imp_left (LoopRecord.isConsistent_resolve hr)

theorem ConsistentUnless.refreshLoop {p : Program} {Given : LoopId → Prop}
    (hc : p.ConsistentUnless Given) {loop : LoopId} {amount : Extent}
    (hgiven : amount = .dynamic ∨ Given loop)
    (h : (p.refreshLoop loop amount).result = .ok ()) :
    (p.refreshLoop loop amount).state.ConsistentUnless Given := by
  intro x hx
  rw [graph_refreshLoop]
  rcases mem_refreshLoop h hx with hx | ⟨r, hmem, hid, hr⟩
  · exact hc x hx
  · rw [hid]
    refine hgiven.imp_left fun hdynamic => ?_
    exact LoopRecord.isConsistent_of_dynamicAmount
      ((LoopRecord.computed_refresh hr).1.trans hdynamic) p.graph loop

/-- Refreshes loops one after the other, up to the first failure. -/
def refreshAll (p : Program) : List (LoopId × Extent) → Attempt Program Unit
  | [] => .done p () []
  | (loop, amount) :: rest => (p.refreshLoop loop amount).andThen (·.refreshAll rest)

/-- What successful refreshes keep one by one they keep in a row. -/
theorem refreshAll_keeps {P : Program → Prop} {refreshes : List (LoopId × Extent)}
    (hstep : ∀ y ∈ refreshes, ∀ p, P p → (p.refreshLoop y.1 y.2).result = .ok () →
      P (p.refreshLoop y.1 y.2).state)
    {p q : Program} (hp : P p) (h : (p.refreshAll refreshes).Reaches q) : P q := by
  induction refreshes generalizing p with
  | nil => exact Attempt.reaches_done.mp h ▸ hp
  | cons y rest ih =>
    obtain ⟨_, ⟨hok, rfl⟩, hrest⟩ := Attempt.reaches_andThen.mp h
    exact ih (fun z hz => hstep z (List.mem_cons_of_mem _ hz))
      (hstep y List.mem_cons_self p hp hok) hrest

theorem ConsistentUnless.workAmountConsistent {p : Program} {Given : LoopId → Prop}
    (hc : p.ConsistentUnless Given) :
    p.certificate.workAmountConsistent = true ∨ ∃ loop, Given loop := by
  by_cases hgiven : ∃ loop, Given loop
  · exact .inr hgiven
  · refine .inl (workAmountConsistent_iff.mpr fun x hx => ?_)
    exact (hc x hx).resolve_right fun hx => hgiven ⟨x.1, hx⟩

/-- The loop is given a known number of iterations, by its record or by a refresh. -/
def GivesAmount (p : Program) (refreshes : List (LoopId × Extent)) (loop : LoopId) : Prop :=
  ∃ n, (loop, .known n) ∈ refreshes ∨ ∃ r, (loop, r) ∈ p.loops.entries ∧ r.workAmount = .known n

theorem consistentUnless_refreshAll {p q : Program} {refreshes : List (LoopId × Extent)}
    (h : (p.resolve .full).result = .ok true)
    (hq : ((p.resolve .full).state.refreshAll refreshes).Reaches q) :
    q.ConsistentUnless (p.GivesAmount refreshes) := by
  refine refreshAll_keeps (P := (ConsistentUnless · (p.GivesAmount refreshes)))
    (fun y hy p' hc hok => ConsistentUnless.refreshLoop hc ?_ hok)
    (consistentUnless_resolve h fun x hx => ?_) hq
  · obtain ⟨loop, amount⟩ := y
    cases amount with
    | dynamic => exact .inl rfl
    | known n => exact .inr ⟨n, .inl hy⟩
  · cases hn : x.2.workAmount with
    | dynamic => exact .inl rfl
    | known n => exact .inr ⟨n, .inr ⟨x.2, hx, hn⟩⟩

theorem allPass_resolve {p : Program} (h : (p.resolve .full).result = .ok true)
    (hdynamic : ∀ x ∈ p.loops.entries, x.2.workAmount = .dynamic) :
    (p.resolve .full).state.certificate.allPass = true := by
  obtain ⟨hstay, hrewind, hsize⟩ := (settled_resolve h).certificate
  have hconsistent : (p.resolve .full).state.ConsistentUnless fun _ => False :=
    consistentUnless_resolve h fun x hx => .inl (hdynamic x hx)
  simp only [Certificate.allPass, hstay, hrewind, hsize, Bool.and_true, Bool.true_and]
  exact hconsistent.workAmountConsistent.resolve_right (by simp)

/-- After a full run that had something to compute and any successful refreshes, the certificate
meets the first, second and fourth obligation. It meets the third one as well, unless some loop was
given a known number of iterations. Right after the run it meets all four if none was. -/
theorem certificate_refreshAll (p q : Program) (refreshes : List (LoopId × Extent))
    (h : (p.resolve .full).result = .ok true)
    (hq : ((p.resolve .full).state.refreshAll refreshes).Reaches q) :
    q.certificate.fixedPortsStay = true ∧ q.certificate.finalizationRewinds = true ∧
      q.certificate.dataSizeSet = true ∧
      (q.certificate.workAmountConsistent = true ∨ ∃ loop, p.GivesAmount refreshes loop) ∧
      ((∀ x ∈ p.loops.entries, x.2.workAmount = .dynamic) →
        (p.resolve .full).state.certificate.allPass = true) := by
  have hsettled : q.Settled := refreshAll_keeps (fun _ _ _ hs hok => hs.refreshLoop hok)
    (settled_resolve h) hq
  obtain ⟨hstay, hrewind, hsize⟩ := hsettled.certificate
  exact ⟨hstay, hrewind, hsize, (consistentUnless_refreshAll h hq).workAmountConsistent,
    allPass_resolve h⟩

/-- Two loops without a declared number of iterations, one of them beside a dynamic extent. -/
def twoLoops : Program :=
  ⟨threeLoads, (LoopTable.empty.insert 0 (loopOver .dynamic [3, 4])).insert 1
    (loopOver .dynamic [5])⟩

/-- All obligations are met after the run, and all but the third one after the refreshes: seven
iterations do not fit three elements. -/
theorem certificate_refreshAll_twoLoops :
    (twoLoops.resolve .full).result = .ok true ∧
      (twoLoops.resolve .full).state.certificate.allPass = true ∧
      ∃ q, ((twoLoops.resolve .full).state.refreshAll [(0, .dynamic), (1, .known 7)]).Reaches q ∧
        q.certificate = ⟨true, true, false, true⟩ ∧ q.certificate.finalizationRewinds = true := by
  have hrun : (twoLoops.resolve .full).result = .ok true := by decide
  have hreaches := Attempt.reaches_state
    (a := (twoLoops.resolve .full).state.refreshAll [(0, .dynamic), (1, .known 7)]) (by decide)
  obtain ⟨-, hrewind, -, -, hpass⟩ := certificate_refreshAll twoLoops _ _ hrun hreaches
  exact ⟨hrun, hpass (by decide), _, hreaches, by decide, hrewind⟩

end Program

end TensorLoops
