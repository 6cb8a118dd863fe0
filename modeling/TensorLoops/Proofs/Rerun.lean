import TensorLoops.Proofs.Settled

namespace TensorLoops

namespace LoopRecord

/-- The moving ports that go on moving once they have been classified. -/
def survivingPorts (r : LoopRecord) (g : Graph) (loop : LoopId) : List LoopPort :=
  r.movingPorts.filter fun p => g.pointer loop p.port = .ok .free

/-- A number of iterations that stays dynamic is made so by the surviving ports alone. -/
def KeepsAmount (r : LoopRecord) (g : Graph) (loop : LoopId) : Prop :=
  r.resolvedAmount g loop = .ok .dynamic →
    mergeExtents g loop (.known 1) (r.survivingPorts g loop) = .ok .dynamic

instance (r : LoopRecord) (g : Graph) (loop : LoopId) : Decidable (r.KeepsAmount g loop) :=
  inferInstanceAs (Decidable (_ → _))

end LoopRecord

/-- The ports that move after a full run are the surviving ones, on the same walks. -/
theorem mergeExtents_moving {g : Graph} {loop : LoopId} {workAmount : Extent}
    {ps qs : List LoopPort}
    (h : List.Forall₂ (fun p q => (p.resolve g loop workAmount .full).Reaches q) ps qs)
    (amount : Extent) :
    mergeExtents g loop amount (qs.filter (·.incremented)) =
      mergeExtents g loop amount ((ps.filter (·.incremented)).filter fun p =>
        g.pointer loop p.port = .ok .free) := by
  induction h generalizing amount with
  | nil => rfl
  | @cons p q ps qs hpq _ ih =>
    obtain ⟨-, hport, hdim, pointer, hp, hi⟩ := LoopPort.settled_resolve hpq
    have hwalk := LoopPort.walk_congr hport hdim g
    cases hmoves : p.incremented with
    | false =>
      have hq : q.incremented = false := by
        rw [hi, hmoves]
        cases pointer <;> rfl
      simp only [List.filter_cons, hmoves, hq, Bool.false_eq_true, if_false]
      exact ih amount
    | true =>
      rw [hmoves] at hi
      cases pointer with
      | free =>
        have hq : q.incremented = true := hi
        simp only [List.filter_cons, hmoves, hq, hp, if_true, decide_true, mergeExtents, hwalk]
        cases p.walk g with
        | error e => rfl
        | ok w => cases amount.merge? w.extent <;> simp only [ih]
      | absent | held =>
        have hq : q.incremented = false := hi
        simp only [List.filter_cons, hmoves, hq, hp, if_true, Bool.false_eq_true, if_false,
          Except.ok.injEq, reduceCtorEq, decide_false]
        exact ih amount

namespace LoopRecord

theorem mergedExtent_of_reaches {r r' : LoopRecord} {g : Graph} {loop : LoopId}
    (h : (r.resolve g loop .full).Reaches r') :
    r'.mergedExtent g loop = mergeExtents g loop (.known 1) (r.survivingPorts g loop) := by
  obtain ⟨workAmount, -, hr⟩ := reaches_resolve.mp h
  obtain ⟨-, he, hx⟩ := reaches_eachPort.mp hr
  exact mergeExtents_moving (forall₂_ports he hx) (.known 1)

/-- A settled record is left alone by a run that arrives at its number of iterations. -/
theorem Settled.resolve_iff {r : LoopRecord} {g : Graph} {loop : LoopId} (h : r.Settled g loop)
    (mode : Mode) :
    (r.resolve g loop mode).Reaches r ↔ r.resolvedAmount g loop = .ok r.workAmount := by
  constructor
  · intro hr
    obtain ⟨workAmount, ha, hports⟩ := reaches_resolve.mp hr
    have hw : r.workAmount = workAmount := (reaches_eachPort.mp hports).1
    exact hw ▸ ha
  · intro ha
    refine reaches_resolve.mpr ⟨r.workAmount, ha, reaches_eachPort.mpr ⟨rfl, ?_, ?_⟩⟩
    · apply List.forall₂_same.mpr
      intro p hp
      exact (h p (List.mem_append_left _ hp)).resolve mode
    · apply List.forall₂_same.mpr
      intro p hp
      exact (h p (List.mem_append_right _ hp)).resolve mode

/-- A record that a full run has left is left alone by another run exactly when it keeps its
number of iterations. -/
theorem resolve_again_iff {r r' : LoopRecord} {g : Graph} {loop : LoopId}
    (h : (r.resolve g loop .full).Reaches r') (mode : Mode) :
    (r'.resolve g loop mode).Reaches r' ↔ r.KeepsAmount g loop := by
  obtain ⟨hamount, hsettled⟩ := settled_resolve h
  rw [hsettled.resolve_iff mode]
  unfold KeepsAmount
  rw [hamount, ← mergedExtent_of_reaches h]
  cases hw : r'.workAmount with
  | known n => simp [resolvedAmount, hw, Extent.isDynamic]
  | dynamic => simp [resolvedAmount, hw, Extent.isDynamic]

end LoopRecord

namespace Program

theorem hasLoops_resolve (p : Program) (mode : Mode) :
    (p.resolve mode).state.hasLoops = p.hasLoops := by
  cases hl : p.hasLoops with
  | false => simp [resolve, hl, Attempt.done]
  | true =>
    have hids : (p.resolve mode).state.loops.entries.map Prod.fst =
        p.loops.entries.map Prod.fst := by
      simp only [resolve, hl, if_true]
      exact Attempt.map_each_state _ Prod.fst (fun _ => rfl) _
    have hempty := congrArg List.isEmpty hids
    simp only [List.isEmpty_map] at hempty
    rw [← hl]
    simp only [hasLoops, isEmpty, LoopTable.isEmpty, graph_resolve, hempty]

/-- A run that has something to compute leaves the program alone exactly when it does so with each
record. -/
theorem resolve_unchanged_iff {p : Program} (hl : p.hasLoops = true) (mode : Mode) :
    ((p.resolve mode).result = .ok true ∧ (p.resolve mode).state = p) ↔
      ∀ entry ∈ p.loops.entries, (entry.2.resolve p.graph entry.1 mode).Reaches entry.2 := by
  have heach : ((p.resolve mode).result = .ok true ∧ (p.resolve mode).state = p) ↔
      (p.loops.each fun loop r => r.resolve p.graph loop mode).Reaches p.loops := by
    constructor
    · intro h
      obtain ⟨hr, hs⟩ := h
      have h := reaches_resolve hl ⟨true, hr⟩
      rwa [hs] at h
    · intro h
      obtain ⟨hr, hs⟩ := h
      simp [resolve, hl, Attempt.withResult, Attempt.mapState, hr, hs, Except.map]
  rw [heach, LoopTable.reaches_each, List.forall₂_same]
  simp

/-- Running again after a full run, in either mode, succeeds with the same answer and changes
nothing, exactly when every loop whose number of iterations has stayed dynamic owes that to ports
that still move. -/
theorem resolve_again_unchanged_iff (p : Program) {changed : Bool}
    (h : (p.resolve .full).result = .ok changed) (mode : Mode) :
    (((p.resolve .full).state.resolve mode).result = .ok changed ∧
      ((p.resolve .full).state.resolve mode).state = (p.resolve .full).state) ↔
      (p.hasLoops = true → ∀ entry ∈ p.loops.entries, entry.2.KeepsAmount p.graph entry.1) := by
  cases hl : p.hasLoops with
  | false =>
    simp only [resolve, hl, Bool.false_eq_true, if_false, Attempt.done] at h ⊢
    simp [h]
  | true =>
    have heach := LoopTable.reaches_each.mp (reaches_resolve hl ⟨changed, h⟩)
    have htrue : changed = true := by
      simp only [resolve, hl, if_true, Attempt.withResult, Attempt.mapState] at h
      cases hr : (p.loops.each fun loop r => r.resolve p.graph loop .full).result with
      | ok u => simpa [hr, Except.map] using h.symm
      | error e => simp [hr, Except.map] at h
    rw [htrue, resolve_unchanged_iff ((hasLoops_resolve p .full).trans hl), graph_resolve]
    simp only [forall_const]
    -- the records before and after the first run stand side by side
    generalize (p.resolve .full).state.loops.entries = after at heach ⊢
    generalize p.loops.entries = before at heach ⊢
    induction heach with
    | nil => simp
    | @cons x y xs ys hxy _ ih =>
      obtain ⟨hid, hr⟩ := hxy
      rw [List.forall_mem_cons, List.forall_mem_cons]
      refine and_congr ?_ ih
      rw [hid]
      exact LoopRecord.resolve_again_iff hr mode

/-- A loop with two ports: one of an operation without pointers, on a dynamic axis, and one that
loads four elements. -/
def widened : Program where
  graph :=
    let four : Descriptor := .dense .f32 [.known 4]
    let unknown : Descriptor := .dense .f32 [.dynamic]
    { expressions :=
        [⟨0, some "p", .parameter, [], [], [⟨four, 0⟩]⟩,
          ⟨1, some "q", .parameter, [], [], [⟨unknown, 1⟩]⟩,
          ⟨2, some "e", .exp, [0], [⟨unknown, 1⟩], [⟨unknown, 2⟩]⟩,
          ⟨3, some "ld", .load, [0], [⟨four, 0⟩], [⟨four, 3⟩]⟩]
      connectors :=
        [⟨⟨0, .output, 0⟩, [⟨3, .input, 0⟩]⟩, ⟨⟨1, .output, 0⟩, [⟨2, .input, 0⟩]⟩,
          ⟨⟨2, .output, 0⟩, []⟩, ⟨⟨3, .output, 0⟩, []⟩] }
  loops := LoopTable.empty.insert 0
    ⟨.dynamic, [.moving ⟨2, .input, 0⟩ 0, .moving ⟨3, .input, 0⟩ 0], []⟩

/-- The first run drops the port with the dynamic extent, and the second one finds a number of
iterations. -/
theorem resolve_again_changes :
    (widened.resolve .full).result = .ok true ∧
      ((widened.resolve .full).state.resolve .full).result = .ok true ∧
      ((widened.resolve .full).state.resolve .full).state ≠ (widened.resolve .full).state := by
  decide

theorem resolve_again_unchanged_iff_widened :
    (widened.resolve .full).result = .ok true ∧
      ((((widened.resolve .full).state.resolve .full).result = .ok true ∧
        ((widened.resolve .full).state.resolve .full).state = (widened.resolve .full).state) ↔
        (widened.hasLoops = true →
          ∀ entry ∈ widened.loops.entries, entry.2.KeepsAmount widened.graph entry.1)) :=
  ⟨by decide, resolve_again_unchanged_iff widened (by decide) .full⟩

end Program

end TensorLoops
