import TensorLoops.Proofs.Attempts
import TensorLoops.Resolution

namespace TensorLoops

namespace LoopPort

/-- The increment and the finalization offset are those of `workAmount`. -/
structure Computed (p : LoopPort) (g : Graph) (workAmount : Extent) : Prop where
  rewinds : p.finalization = p.increment.rewind workAmount
  moves : p.incremented = true → ∃ w, p.walk g = .ok w ∧ p.increment = w.increment workAmount
  stays : p.incremented = false → p.increment = .zero

/-- A full run finds nothing to change at the port. -/
structure Settled (p : LoopPort) (g : Graph) (loop : LoopId) (workAmount : Extent) : Prop
    extends p.Computed g workAmount where
  classified : ∃ pointer, g.pointer loop p.port = .ok pointer ∧
    pointer.moves p.incremented = p.incremented
  measured : ∃ d, g.descriptor p.port = .ok d ∧ p.dataSize = d.element.size

/-- The walk of a port depends on the port and its axis alone. -/
theorem walk_congr {p q : LoopPort} (hp : p.port = q.port) (hd : p.dim = q.dim) (g : Graph) :
    p.walk g = q.walk g := by
  simp only [walk, hp, hd]

theorem refresh_of_fixed {p : LoopPort} {g : Graph} (h : p.incremented = false)
    (workAmount : Extent) : p.refresh g workAmount =
      .done (p.withIncrement .zero workAmount) () (rewindEvents .zero workAmount) := by
  simp [refresh, h]

theorem refresh_of_walk {p : LoopPort} {g : Graph} {w : Walk} (h : p.incremented = true)
    (hw : p.walk g = .ok w) (workAmount : Extent) :
    p.refresh g workAmount = .done (p.withIncrement (w.increment workAmount) workAmount) ()
      (w.events workAmount ++ rewindEvents (w.increment workAmount) workAmount) := by
  simp [refresh, h, hw]

theorem refresh_of_error {p : LoopPort} {g : Graph} {e : LookupError} (h : p.incremented = true)
    (he : p.walk g = .error e) (workAmount : Extent) :
    p.refresh g workAmount = .fail { p with increment := .zero } (.lookup e) [] := by
  simp [refresh, h, he]

/-- A refresh changes the increment and the finalization offset at most, also if it fails. -/
theorem state_refresh (p : LoopPort) (g : Graph) (workAmount : Extent) :
    ∃ increment finalization,
      (p.refresh g workAmount).state = { p with increment, finalization } := by
  rcases Bool.eq_false_or_eq_true p.incremented with hi | hi
  · cases hw : p.walk g with
    | error e => exact ⟨_, _, congrArg Attempt.state (refresh_of_error hi hw workAmount)⟩
    | ok w => exact ⟨_, _, congrArg Attempt.state (refresh_of_walk hi hw workAmount)⟩
  · exact ⟨_, _, congrArg Attempt.state (refresh_of_fixed hi workAmount)⟩

theorem reaches_refresh {p q : LoopPort} {g : Graph} {workAmount : Extent} :
    (p.refresh g workAmount).Reaches q ↔
      p.incremented = true ∧ (∃ w, p.walk g = .ok w ∧
        p.withIncrement (w.increment workAmount) workAmount = q) ∨
      p.incremented = false ∧ p.withIncrement .zero workAmount = q := by
  cases hi : p.incremented with
  | false => simp [refresh_of_fixed hi]
  | true =>
    cases hw : p.walk g with
    | error e => simp [refresh_of_error hi hw]
    | ok w => simp [refresh_of_walk hi hw]

/-- A refresh leaves a computed port that differs in its parameters at most. -/
theorem computed_refresh {p q : LoopPort} {g : Graph} {workAmount : Extent}
    (h : (p.refresh g workAmount).Reaches q) :
    q.Computed g workAmount ∧ q.port = p.port ∧ q.dim = p.dim ∧
      q.incremented = p.incremented ∧ q.dataSize = p.dataSize := by
  rcases reaches_refresh.mp h with ⟨hi, w, hw, rfl⟩ | ⟨hi, rfl⟩
  · refine ⟨⟨rfl, fun _ => ⟨w, hw, rfl⟩, fun hf => ?_⟩, rfl, rfl, rfl, rfl⟩
    exact absurd (hi.symm.trans hf) (by decide)
  · refine ⟨⟨rfl, fun ht => ?_, fun _ => rfl⟩, rfl, rfl, rfl, rfl⟩
    exact absurd (hi.symm.trans ht) (by decide)

/-- A computed port is left alone by a refresh. -/
theorem Computed.refresh {p : LoopPort} {g : Graph} {workAmount : Extent}
    (h : p.Computed g workAmount) : (p.refresh g workAmount).Reaches p := by
  have hself : p.withIncrement p.increment workAmount = p := by
    unfold withIncrement
    rw [← h.rewinds]
  apply reaches_refresh.mpr
  cases hi : p.incremented with
  | true =>
    obtain ⟨w, hw, hinc⟩ := h.moves hi
    exact .inl ⟨rfl, w, hw, hinc ▸ hself⟩
  | false => exact .inr ⟨rfl, h.stays hi ▸ hself⟩

theorem reaches_resolve_full {p q : LoopPort} {g : Graph} {loop : LoopId} {workAmount : Extent} :
    (p.resolve g loop workAmount .full).Reaches q ↔
      ∃ pointer d, g.pointer loop p.port = .ok pointer ∧ g.descriptor p.port = .ok d ∧
        (({ p with incremented := pointer.moves p.incremented
                   dataSize := d.element.size }).refresh g workAmount).Reaches q := by
  simp only [resolve, Attempt.reaches_andThen, Attempt.reaches_done, exists_eq_right]
  unfold classify measure
  cases g.pointer loop p.port with
  | error e => simp
  | ok pointer => cases hd : g.descriptor p.port <;> simp [hd]

theorem reaches_resolve_callTime {p q : LoopPort} {g : Graph} {loop : LoopId}
    {workAmount : Extent} :
    (p.resolve g loop workAmount .callTime).Reaches q ↔ (p.refresh g workAmount).Reaches q := by
  simp [resolve, Attempt.reaches_andThen]

end LoopPort

namespace Pointer

/-- Classifying again does not change the decision. -/
theorem moves_moves (s : Pointer) (b : Bool) : s.moves (s.moves b) = s.moves b := by
  cases s <;> rfl

end Pointer

namespace LoopPort

/-- A full run leaves a settled port. -/
theorem settled_resolve {p q : LoopPort} {g : Graph} {loop : LoopId} {workAmount : Extent}
    (h : (p.resolve g loop workAmount .full).Reaches q) :
    q.Settled g loop workAmount ∧ q.port = p.port ∧ q.dim = p.dim ∧
      ∃ pointer, g.pointer loop p.port = .ok pointer ∧
        q.incremented = pointer.moves p.incremented := by
  obtain ⟨pointer, d, hp, hd, hr⟩ := reaches_resolve_full.mp h
  obtain ⟨hc, hport, hdim, hi, hsize⟩ := computed_refresh hr
  dsimp only at hport hdim hi hsize
  refine ⟨⟨hc, ⟨pointer, hport ▸ hp, ?_⟩, ⟨d, hport ▸ hd, hsize⟩⟩, hport, hdim, pointer, hp, hi⟩
  rw [hi, Pointer.moves_moves]

/-- A settled port is left alone by a run. -/
theorem Settled.resolve {p : LoopPort} {g : Graph} {loop : LoopId} {workAmount : Extent}
    (h : p.Settled g loop workAmount) (mode : Mode) :
    (p.resolve g loop workAmount mode).Reaches p := by
  cases mode with
  | callTime => exact reaches_resolve_callTime.mpr h.toComputed.refresh
  | full =>
    obtain ⟨pointer, hp, hm⟩ := h.classified
    obtain ⟨d, hd, hs⟩ := h.measured
    refine reaches_resolve_full.mpr ⟨pointer, d, hp, hd, ?_⟩
    have hself : { p with incremented := pointer.moves p.incremented
                          dataSize := d.element.size } = p := by
      rw [hm, ← hs]
    rw [hself]
    exact h.toComputed.refresh

/-- A refresh leaves a settled port settled. -/
theorem Settled.refresh {p q : LoopPort} {g : Graph} {loop : LoopId} {before after : Extent}
    (h : p.Settled g loop before) (hr : (p.refresh g after).Reaches q) :
    q.Settled g loop after := by
  obtain ⟨hc, hport, -, hi, hsize⟩ := computed_refresh hr
  obtain ⟨-, hclassified, hmeasured⟩ := h
  rw [← hport, ← hi] at hclassified
  rw [← hport, ← hsize] at hmeasured
  exact ⟨hc, hclassified, hmeasured⟩

end LoopPort

namespace LoopRecord

theorem reaches_resolve {r r' : LoopRecord} {g : Graph} {loop : LoopId} {mode : Mode} :
    (r.resolve g loop mode).Reaches r' ↔
      ∃ workAmount, r.resolvedAmount g loop = .ok workAmount ∧
        (({ r with workAmount }).eachPort fun p =>
          p.resolve g loop workAmount mode).Reaches r' := by
  unfold resolve
  cases r.resolvedAmount g loop <;> simp

/-- All ports are computed for the number of iterations of the record. -/
def Computed (r : LoopRecord) (g : Graph) : Prop := ∀ p ∈ r.ports, p.Computed g r.workAmount

/-- All ports are settled for the number of iterations of the record. -/
def Settled (r : LoopRecord) (g : Graph) (loop : LoopId) : Prop :=
  ∀ p ∈ r.ports, p.Settled g loop r.workAmount

theorem Settled.computed {r : LoopRecord} {g : Graph} {loop : LoopId} (h : r.Settled g loop) :
    r.Computed g := fun p hp => (h p hp).toComputed

/-- What each port of a treated record satisfies on its own, all of them satisfy. -/
theorem ports_of_eachPort {r r' : LoopRecord} {f : LoopPort → Attempt LoopPort Unit}
    (h : (r.eachPort f).Reaches r') {P : LoopPort → Prop}
    (hP : ∀ p ∈ r.ports, ∀ q, (f p).Reaches q → P q) : ∀ q ∈ r'.ports, P q := by
  obtain ⟨-, he, hx⟩ := reaches_eachPort.mp h
  intro q hq
  obtain ⟨p, hp, hpq⟩ := forall₂_mem_right (forall₂_ports he hx) hq
  exact hP p hp q hpq

theorem settled_resolve {r r' : LoopRecord} {g : Graph} {loop : LoopId}
    (h : (r.resolve g loop .full).Reaches r') :
    r.resolvedAmount g loop = .ok r'.workAmount ∧ r'.Settled g loop := by
  obtain ⟨workAmount, ha, hr⟩ := reaches_resolve.mp h
  have hw : r'.workAmount = workAmount := (reaches_eachPort.mp hr).1
  subst hw
  exact ⟨ha, ports_of_eachPort hr fun p _ q hpq => (LoopPort.settled_resolve hpq).1⟩

theorem computed_refresh {r r' : LoopRecord} {g : Graph} {loop : LoopId} {workAmount : Extent}
    (h : (r.refresh g loop workAmount).Reaches r') :
    r'.workAmount = workAmount ∧ r'.Computed g := by
  have hw : r'.workAmount = workAmount := (reaches_eachPort.mp h).1
  subst hw
  exact ⟨rfl, ports_of_eachPort h fun p _ q hpq => (LoopPort.computed_refresh hpq).1⟩

theorem Settled.refresh {r r' : LoopRecord} {g : Graph} {loop : LoopId} {workAmount : Extent}
    (h : r.Settled g loop) (hr : (r.refresh g loop workAmount).Reaches r') :
    r'.Settled g loop := by
  have hw : r'.workAmount = workAmount := (reaches_eachPort.mp hr).1
  subst hw
  exact ports_of_eachPort hr fun p hp q hpq => (h p hp).refresh hpq

end LoopRecord

namespace LoopTable

theorem mem_modify {t : LoopTable} {id : LoopId} {f : LoopRecord → LoopRecord}
    {x : LoopId × LoopRecord} (h : x ∈ (t.modify id f).entries) :
    x ∈ t.entries ∨ ∃ r, x = (id, f r) := by
  obtain ⟨y, hy, hx⟩ := List.mem_map.mp h
  split at hx
  · rename_i hid
    exact .inr ⟨y.2, by rw [← hx, hid]⟩
  · exact .inl (hx ▸ hy)

theorem mem_of_get? {t : LoopTable} {id : LoopId} {r : LoopRecord} (h : t.get? id = some r) :
    (id, r) ∈ t.entries := by
  obtain ⟨x, hx, rfl⟩ := Option.map_eq_some_iff.mp h
  have hid : x.1 = id := by simpa using List.find?_some hx
  rw [← hid]
  exact List.mem_of_find?_eq_some hx

end LoopTable

namespace Program

/-- A successful run that has something to compute treats every record with success. -/
theorem reaches_resolve {p : Program} {mode : Mode} (hl : p.hasLoops = true)
    (h : ∃ b, (p.resolve mode).result = .ok b) :
    (p.loops.each fun loop r => r.resolve p.graph loop mode).Reaches
      (p.resolve mode).state.loops := by
  obtain ⟨b, hb⟩ := h
  simp only [resolve, hl, if_true] at hb ⊢
  refine ⟨?_, rfl⟩
  cases hr : (p.loops.each fun loop r => r.resolve p.graph loop mode).result with
  | ok u => rfl
  | error e =>
    simp only [Attempt.withResult, Attempt.mapState, hr] at hb
    cases hb

@[simp] theorem graph_resolve (p : Program) (mode : Mode) :
    (p.resolve mode).state.graph = p.graph := by
  unfold resolve
  split <;> rfl

theorem onLoop_of_get? {p : Program} {loop : LoopId} {r : LoopRecord}
    (h : p.loops.get? loop = some r) (f : LoopRecord → Attempt LoopRecord Unit) :
    p.onLoop loop f =
      (f r).mapState fun r => { p with loops := p.loops.modify loop fun _ => r } := by
  simp [onLoop, h]

theorem onLoop_of_missing {p : Program} {loop : LoopId} (h : p.loops.get? loop = none)
    (f : LoopRecord → Attempt LoopRecord Unit) :
    p.onLoop loop f = .fail p (.missingLoop loop) [] := by
  simp [onLoop, h]

@[simp] theorem graph_onLoop (p : Program) (loop : LoopId)
    (f : LoopRecord → Attempt LoopRecord Unit) : (p.onLoop loop f).state.graph = p.graph := by
  cases hget : p.loops.get? loop with
  | none => rw [onLoop_of_missing hget]; rfl
  | some r => rw [onLoop_of_get? hget]; rfl

theorem graph_refreshLoop (p : Program) (loop : LoopId) (amount : Extent) :
    (p.refreshLoop loop amount).state.graph = p.graph := p.graph_onLoop loop _

theorem reaches_refreshLoop {p p' : Program} {loop : LoopId} {amount : Extent} :
    (p.refreshLoop loop amount).Reaches p' ↔
      ∃ r r', p.loops.get? loop = some r ∧ (r.refresh p.graph loop amount).Reaches r' ∧
        { p with loops := p.loops.modify loop fun _ => r' } = p' := by
  unfold refreshLoop
  cases hget : p.loops.get? loop with
  | none => simp [onLoop_of_missing hget]
  | some r => simp [onLoop_of_get? hget, Attempt.reaches_mapState]

/-- A successful refresh treats the record of its loop with success and leaves the others alone. -/
theorem mem_refreshLoop {p : Program} {loop : LoopId} {amount : Extent}
    (h : (p.refreshLoop loop amount).result = .ok ()) {x : LoopId × LoopRecord}
    (hx : x ∈ (p.refreshLoop loop amount).state.loops.entries) :
    x ∈ p.loops.entries ∨ ∃ r, (loop, r) ∈ p.loops.entries ∧ x.1 = loop ∧
      (r.refresh p.graph loop amount).Reaches x.2 := by
  obtain ⟨r, r', hget, hr, hstate⟩ := reaches_refreshLoop.mp (Attempt.reaches_state h)
  rw [← hstate] at hx
  rcases LoopTable.mem_modify hx with hx | ⟨-, rfl⟩
  · exact .inl hx
  · exact .inr ⟨r, LoopTable.mem_of_get? hget, rfl, hr⟩

end Program

end TensorLoops
