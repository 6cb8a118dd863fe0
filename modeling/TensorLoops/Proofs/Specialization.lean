import TensorLoops.Proofs.Displacement
import TensorLoops.Proofs.Refreshes

namespace TensorLoops

/-- The extent stays, or it is dynamic and becomes anything. -/
def Extent.SpecializesTo (e e' : Extent) : Prop := e = .dynamic ∨ e' = e

structure Descriptor.SpecializesTo (d d' : Descriptor) : Prop where
  element : d'.element = d.element
  shape : List.Forall₂ Extent.SpecializesTo d.shape d'.shape
  layout : d'.layout = d.layout

structure Slot.SpecializesTo (s s' : Slot) : Prop where
  descriptor : s.descriptor.SpecializesTo s'.descriptor
  connector : s'.connector = s.connector

structure Expression.SpecializesTo (e e' : Expression) : Prop where
  id : e'.id = e.id
  name : e'.name = e.name
  operation : e'.operation = e.operation
  loops : e'.loops = e.loops
  inputs : List.Forall₂ Slot.SpecializesTo e.inputs e'.inputs
  outputs : List.Forall₂ Slot.SpecializesTo e.outputs e'.outputs

/-- Some dynamic extents at the ports become known, and nothing else changes. -/
structure Graph.SpecializesTo (g g' : Graph) : Prop where
  expressions : List.Forall₂ Expression.SpecializesTo g.expressions g'.expressions
  connectors : g'.connectors = g.connectors

/-- The walks go along the same axis. -/
structure Walk.SpecializesTo (w w' : Walk) : Prop where
  axis : w'.axis = w.axis
  shape : List.Forall₂ Extent.SpecializesTo w.shape w'.shape

/-- Both look-ups fail for the same reason, or both find something, and what they find is related. -/
def LookupError.Alike {α : Type} (R : α → α → Prop) (x x' : Except LookupError α) : Prop :=
  (∃ e, x = .error e ∧ x' = .error e) ∨ ∃ a a', x = .ok a ∧ x' = .ok a' ∧ R a a'

theorem forall₂_getElem? {α β : Type} {R : α → β → Prop} {xs : List α} {ys : List β}
    (h : List.Forall₂ R xs ys) (i : Nat) :
    xs[i]? = none ∧ ys[i]? = none ∨ ∃ x y, xs[i]? = some x ∧ ys[i]? = some y ∧ R x y := by
  induction h generalizing i with
  | nil => exact .inl ⟨rfl, rfl⟩
  | cons hxy _ ih =>
    cases i with
    | zero => exact .inr ⟨_, _, rfl, rfl, hxy⟩
    | succ i => exact ih i

namespace Extent

variable {e e' : Extent}

theorem SpecializesTo.of_known {n : UInt64} (h : (known n).SpecializesTo e') : e' = known n :=
  h.resolve_left (by simp)

theorem eq_of_specializesTo_known {ns : List UInt64} {es : List Extent}
    (h : List.Forall₂ SpecializesTo (ns.map known) es) : es = ns.map known := by
  induction ns generalizing es with
  | nil => exact List.forall₂_nil_left_iff.mp h
  | cons n ns ih =>
    obtain ⟨e, rest, he, hrest, rfl⟩ := List.forall₂_cons_left_iff.mp h
    rw [he.of_known, ih hrest, List.map_cons]

end Extent

section Lookups

variable {g g' : Graph}

theorem Expression.SpecializesTo.slots {e e' : Expression} (h : e.SpecializesTo e')
    (direction : Direction) :
    List.Forall₂ Slot.SpecializesTo (e.slots direction) (e'.slots direction) :=
  match direction with
  | .input => h.inputs
  | .output => h.outputs

namespace Graph.SpecializesTo

theorem expression (h : g.SpecializesTo g') (id : ExprId) :
    LookupError.Alike Expression.SpecializesTo (g.expression id) (g'.expression id) := by
  unfold Graph.expression
  rcases forall₂_getElem? h.expressions id with ⟨hnone, hnone'⟩ | ⟨e, e', he, he', hrel⟩
  · rw [hnone, hnone']
    exact .inl ⟨_, rfl, rfl⟩
  · rw [he, he']
    exact .inr ⟨e, e', rfl, rfl, hrel⟩

theorem slot (h : g.SpecializesTo g') (port : Port) :
    LookupError.Alike Slot.SpecializesTo (g.slot port) (g'.slot port) := by
  unfold Graph.slot
  rcases h.expression port.expr with ⟨err, he, he'⟩ | ⟨e, e', he, he', hrel⟩
  · rw [he, he']
    exact .inl ⟨err, rfl, rfl⟩
  · rw [he, he']
    dsimp only
    rcases forall₂_getElem? (hrel.slots port.direction) port.index with
      ⟨hnone, hnone'⟩ | ⟨s, s', hs, hs', hslot⟩
    · rw [hnone, hnone']
      exact .inl ⟨_, rfl, rfl⟩
    · rw [hs, hs']
      exact .inr ⟨s, s', rfl, rfl, hslot⟩

theorem descriptor (h : g.SpecializesTo g') (port : Port) :
    LookupError.Alike Descriptor.SpecializesTo (g.descriptor port) (g'.descriptor port) := by
  unfold Graph.descriptor
  rcases h.slot port with ⟨err, hs, hs'⟩ | ⟨s, s', hs, hs', hrel⟩
  · rw [hs, hs']
    exact .inl ⟨err, rfl, rfl⟩
  · rw [hs, hs']
    exact .inr ⟨s.descriptor, s'.descriptor, rfl, rfl, hrel.descriptor⟩

end Graph.SpecializesTo

theorem Descriptor.SpecializesTo.walk {d d' : Descriptor} (h : d.SpecializesTo d')
    (direction : Direction) (dim : Nat) :
    LookupError.Alike Walk.SpecializesTo (d.walk direction dim) (d'.walk direction dim) := by
  have haxis : d'.axis? direction dim = d.axis? direction dim := by
    simp only [Descriptor.axis?, h.layout]
  unfold Descriptor.walk
  rw [haxis, h.layout]
  cases d.axis? direction dim with
  | none => exact .inl ⟨_, rfl, rfl⟩
  | some axis =>
    dsimp only
    by_cases hlt : axis < d.shape.length
    · rw [dif_pos hlt, dif_pos (h.shape.length_eq ▸ hlt)]
      exact .inr ⟨_, _, rfl, rfl, rfl, h.shape⟩
    · rw [dif_neg hlt, dif_neg (h.shape.length_eq ▸ hlt)]
      exact .inl ⟨_, rfl, rfl⟩

theorem LoopPort.alike_walk (h : g.SpecializesTo g') (q : LoopPort) :
    LookupError.Alike Walk.SpecializesTo (q.walk g) (q.walk g') := by
  unfold LoopPort.walk
  rcases h.descriptor q.port with ⟨err, hd, hd'⟩ | ⟨d, d', hd, hd', hrel⟩
  · rw [hd, hd']
    exact .inl ⟨err, rfl, rfl⟩
  · rw [hd, hd']
    exact hrel.walk q.port.direction q.dim

end Lookups

theorem strideAfter_specialized {shape shape' : List Extent} {axis : Nat} {c : Int64}
    (h : List.Forall₂ Extent.SpecializesTo shape shape')
    (hc : strideAfter axis shape = .known c) : strideAfter axis shape' = .known c := by
  have hdrop := List.forall₂_drop (axis + 1) h
  unfold strideAfter at hc ⊢
  cases hproduct : runningProduct 1 (shape.drop (axis + 1)) with
  | unknown => simp [hproduct] at hc
  | overflow => simp [hproduct] at hc
  | exact n =>
    -- all extents after the axis are known already
    obtain ⟨ns, hns, -⟩ := runningProduct_eq_exact hproduct
    rw [hns] at hdrop hc
    rwa [Extent.eq_of_specializesTo_known hdrop]

namespace Walk

variable {w w' : Walk} {amount : Extent}

theorem SpecializesTo.extent (h : w.SpecializesTo w') : w.extent.SpecializesTo w'.extent := by
  obtain ⟨shape, axis, hlt⟩ := w
  obtain ⟨shape', axis', hlt'⟩ := w'
  obtain ⟨haxis, hshape⟩ := h
  cases haxis
  exact hshape.get hlt hlt'

theorem SpecializesTo.isInnermost (h : w.SpecializesTo w') : w'.isInnermost = w.isInnermost := by
  simp only [Walk.isInnermost, h.axis, h.shape.length_eq]

/-- An outer axis of dynamic extent turns out to be broadcast by a loop that may have several
iterations. -/
structure NewlyBroadcast (w w' : Walk) (amount : Extent) : Prop where
  outer : w.isInnermost = false
  before : w.extent = .dynamic
  after : w'.extent = .known 1
  several : amount ≠ .known 1

theorem NewlyBroadcast.increment (h : w.NewlyBroadcast w' amount) :
    w'.increment amount = .zero := by
  have hstep : w'.step amount = .broadcast := by
    simp [step, h.after, Extent.isDynamic, Extent.isOne, h.several]
  rw [Walk.increment, hstep]

/-- Apart from the exception, what a step is like is found out once. -/
theorem SpecializesTo.step (h : w.SpecializesTo w') (hstep : w.step amount ≠ .unknown)
    (hn : ¬ w.NewlyBroadcast w' amount) : w'.step amount = w.step amount := by
  cases he : w.extent with
  | known n =>
    have hextent := h.extent
    rw [he] at hextent
    simp only [Walk.step, h.isInnermost, hextent.of_known, he]
  | dynamic =>
    cases hinner : w.isInnermost with
    | true => exact absurd (by simp [Walk.step, hinner, he, Extent.isDynamic]) hstep
    | false =>
      have hone : w'.extent = .known 1 → amount = .known 1 := by
        intro hafter
        by_contra hseveral
        exact hn ⟨hinner, he, hafter, hseveral⟩
      simpa [Walk.step, h.isInnermost, hinner, he, Extent.isOne] using hone

/-- Apart from the exception, a known increment is kept. -/
theorem SpecializesTo.increment (h : w.SpecializesTo w') {c : Int64}
    (hc : w.increment amount = .known c) (hn : ¬ w.NewlyBroadcast w' amount) :
    w'.increment amount = .known c := by
  have hknown : w.step amount ≠ .unknown := by
    intro hstep
    rw [Walk.increment, hstep] at hc
    cases hc
  unfold Walk.increment at hc ⊢
  rw [h.step hknown hn]
  cases hstep : w.step amount with
  | unknown => exact absurd hstep hknown
  | broadcast => simpa [hstep] using hc
  | strided =>
    rw [hstep] at hc
    rw [h.axis]
    exact strideAfter_specialized h.shape hc

end Walk

/-- When some increment can be undone, there is nothing to undo for a pointer that stays. -/
theorem Offset.rewind_zero_of_known {o : Offset} {amount : Extent} {f : Int64}
    (h : o.rewind amount = known f) : zero.rewind amount = zero := by
  cases o with
  | dynamic => cases h
  | known c =>
    cases amount with
    | dynamic => cases h
    | known n =>
      have hlt := (rewind_eq_known_iff.mp h).1.1
      exact rewind_eq_known_iff.mpr ⟨⟨hlt, by simp [InRange]⟩, by simp⟩

/-- The merged extent is a number, or two extents do not fit. -/
def IsDefinite : Except LoopError Extent → Prop
  | .ok (.known _) => True
  | .error (.incompatible ..) => True
  | _ => False

/-- A dynamic extent takes in all others. -/
theorem not_isDefinite_mergeExtents_dynamic (g : Graph) (loop : LoopId) (ports : List LoopPort) :
    ¬ IsDefinite (mergeExtents g loop .dynamic ports) := by
  induction ports with
  | nil => exact id
  | cons q rest ih =>
    rw [mergeExtents]
    cases q.walk g with
    | error e => exact id
    | ok w => exact ih

theorem mergeExtents_specialized {g g' : Graph} (h : g.SpecializesTo g') {loop : LoopId}
    {amount : Extent} {ports : List LoopPort}
    (hm : IsDefinite (mergeExtents g loop amount ports)) :
    mergeExtents g' loop amount ports = mergeExtents g loop amount ports := by
  induction ports generalizing amount with
  | nil => rfl
  | cons q rest ih =>
    rw [mergeExtents] at hm ⊢
    rw [mergeExtents]
    rcases q.alike_walk h with ⟨err, hw, hw'⟩ | ⟨w, w', hw, hw', hrel⟩
    · rw [hw, hw']
    · rw [hw] at hm ⊢
      rw [hw']
      dsimp only at hm ⊢
      rcases hrel.extent with hdynamic | hextent
      · rw [hdynamic, Extent.merge?_dynamic_right] at hm
        exact absurd hm (not_isDefinite_mergeExtents_dynamic g loop rest)
      · rw [hextent]
        cases hmerge : amount.merge? w.extent with
        | none => rfl
        | some merged =>
          rw [hmerge] at hm
          exact ih hm

namespace LoopPort

variable {g g' : Graph} {q : LoopPort}

/-- The port walks along an outer axis of dynamic extent, which turns out to be broadcast. -/
def NewlyBroadcast (q : LoopPort) (g g' : Graph) (amount : Extent) : Prop :=
  ∃ w w', q.walk g = .ok w ∧ q.walk g' = .ok w' ∧ w.NewlyBroadcast w' amount

/-- The second port has the known increment and the known finalization offset of the first one; where
the axis turns out to be broadcast they are zero instead. -/
structure Carries (g g' : Graph) (amount : Extent) (q q' : LoopPort) : Prop where
  topology : q.SameTopology q'
  increment : ∀ c, q.increment = .known c →
    (¬ q.NewlyBroadcast g g' amount → q'.increment = .known c) ∧
      (q.NewlyBroadcast g g' amount → q'.increment = .zero)
  finalization : ∀ f, q.finalization = .known f →
    (¬ q.NewlyBroadcast g g' amount → q'.finalization = .known f) ∧
      (q.NewlyBroadcast g g' amount → q'.finalization = .zero)

theorem result_refresh_specialized (h : g.SpecializesTo g') (amount : Extent) (q : LoopPort) :
    (q.refresh g' amount).result = (q.refresh g amount).result := by
  cases hmoves : q.incremented with
  | false => rw [refresh_of_fixed hmoves, refresh_of_fixed hmoves]
  | true =>
    rcases q.alike_walk h with ⟨err, hw, hw'⟩ | ⟨w, w', hw, hw', -⟩
    · rw [refresh_of_error hmoves hw, refresh_of_error hmoves hw']
    · rw [refresh_of_walk hmoves hw, refresh_of_walk hmoves hw']
      rfl

theorem newlyBroadcast_iff {w w' : Walk} (hw : q.walk g = .ok w) (hw' : q.walk g' = .ok w')
    {amount : Extent} : q.NewlyBroadcast g g' amount ↔ w.NewlyBroadcast w' amount := by
  constructor
  · intro h
    obtain ⟨v, v', hv, hv', hnew⟩ := h
    cases hw.symm.trans hv
    cases hw'.symm.trans hv'
    exact hnew
  · intro h
    exact ⟨w, w', hw, hw', h⟩

theorem carries_refresh (h : g.SpecializesTo g') {amount : Extent} {p q q' : LoopPort}
    (hq : (p.refresh g amount).Reaches q) (hq' : (p.refresh g' amount).Reaches q') :
    q.Carries g g' amount q' := by
  cases hmoves : p.incremented with
  | false =>
    rw [refresh_of_fixed hmoves, Attempt.reaches_done] at hq hq'
    subst hq hq'
    exact ⟨rfl, fun c hc => ⟨fun _ => hc, fun _ => rfl⟩,
      fun f hf => ⟨fun _ => hf, fun _ => Offset.rewind_zero_of_known hf⟩⟩
  | true =>
    rcases p.alike_walk h with ⟨err, hw, -⟩ | ⟨w, w', hw, hw', hrel⟩
    · rw [refresh_of_error hmoves hw] at hq
      exact absurd hq Attempt.not_reaches_fail
    · rw [refresh_of_walk hmoves hw, Attempt.reaches_done] at hq
      rw [refresh_of_walk hmoves hw', Attempt.reaches_done] at hq'
      subst hq hq'
      have hnew : ∀ increment, (p.withIncrement increment amount).NewlyBroadcast g g' amount ↔
          w.NewlyBroadcast w' amount := fun _ => newlyBroadcast_iff hw hw'
      refine ⟨rfl, fun c hc => ?_, fun f hf => ?_⟩
      · rw [hnew]
        exact ⟨hrel.increment hc, fun hn => hn.increment⟩
      · rw [hnew]
        change (w.increment amount).rewind amount = .known f at hf
        change (_ → (w'.increment amount).rewind amount = .known f) ∧
          (_ → (w'.increment amount).rewind amount = .zero)
        constructor
        · intro hn
          cases hc : w.increment amount with
          | dynamic => simp [hc] at hf
          | known c => rwa [hrel.increment hc hn, ← hc]
        · intro hn
          rw [hn.increment]
          exact Offset.rewind_zero_of_known hf

end LoopPort

namespace LoopRecord

variable {g g' : Graph}

theorem result_refresh_specialized (h : g.SpecializesTo g') (r : LoopRecord) (loop : LoopId)
    (amount : Extent) : (r.refresh g' loop amount).result = (r.refresh g loop amount).result := by
  have hports : ({ r with workAmount := amount } : LoopRecord).ports = r.ports := rfl
  exact result_eachPort_congr hports fun q => q.result_refresh_specialized h amount

theorem related_carries_refresh (h : g.SpecializesTo g') {r : LoopRecord} {loop : LoopId}
    {amount : Extent} (hr : (r.refresh g loop amount).result = .ok ()) :
    (r.refresh g loop amount).state.Related (LoopPort.Carries g g' amount)
      (r.refresh g' loop amount).state := by
  have hreaches := Attempt.reaches_state hr
  have hreaches' := Attempt.reaches_state ((r.result_refresh_specialized h loop amount).trans hr)
  obtain ⟨-, hentries, hexits⟩ := reaches_eachPort.mp hreaches
  obtain ⟨-, hentries', hexits'⟩ := reaches_eachPort.mp hreaches'
  exact ⟨forall₂_comp hentries.flip hentries' fun q p q' => LoopPort.carries_refresh h,
    forall₂_comp hexits.flip hexits' fun q p q' => LoopPort.carries_refresh h⟩

/-- A number of iterations that has been found with a graph, or a conflict between two extents, is
found again with every graph that it specializes to. Where a refresh succeeds it succeeds again, and
each port has the known increment and the known finalization offset that it had before, or zero if
its axis turns out to be broadcast. -/
theorem specialization_keeps (h : g.SpecializesTo g') (r : LoopRecord) (loop : LoopId) :
    (∀ n, r.mergedExtent g loop = .ok (.known n) → r.mergedExtent g' loop = .ok (.known n)) ∧
    (∀ id lhs rhs, r.mergedExtent g loop = .error (.incompatible id lhs rhs) →
      r.mergedExtent g' loop = .error (.incompatible id lhs rhs)) ∧
    ∀ amount, (r.refresh g loop amount).result = .ok () →
      (r.refresh g' loop amount).result = .ok () ∧
        (r.refresh g loop amount).state.Related (LoopPort.Carries g g' amount)
          (r.refresh g' loop amount).state := by
  have hmerged : IsDefinite (r.mergedExtent g loop) →
      r.mergedExtent g' loop = r.mergedExtent g loop := mergeExtents_specialized h
  refine ⟨fun n hn => ?_, fun id lhs rhs he => ?_, fun amount hr => ⟨?_, ?_⟩⟩
  · rw [hmerged (hn ▸ trivial), hn]
  · rw [hmerged (he ▸ trivial), he]
  · exact (r.result_refresh_specialized h loop amount).trans hr
  · exact related_carries_refresh h hr

end LoopRecord

/-- Loads of rows of four and of three elements. -/
def rowLoads (rows : Extent) : Graph :=
  let four : Descriptor := .dense .f32 [rows, .known 4]
  let three : Descriptor := .dense .f32 [rows, .known 3]
  { expressions :=
      [⟨0, some "p", .parameter, [], [], [⟨four, 0⟩]⟩,
        ⟨1, some "q", .parameter, [], [], [⟨three, 1⟩]⟩,
        ⟨2, some "a", .load, [0], [⟨four, 0⟩], [⟨four, 2⟩]⟩,
        ⟨3, some "b", .load, [0], [⟨three, 1⟩], [⟨three, 3⟩]⟩]
    connectors :=
      [⟨⟨0, .output, 0⟩, [⟨2, .input, 0⟩]⟩, ⟨⟨1, .output, 0⟩, [⟨3, .input, 0⟩]⟩,
        ⟨⟨2, .output, 0⟩, []⟩, ⟨⟨3, .output, 0⟩, []⟩] }

theorem rowLoads_specializesTo (rows : Extent) :
    (rowLoads .dynamic).SpecializesTo (rowLoads rows) := by
  have hslot : ∀ columns c, Slot.SpecializesTo ⟨.dense .f32 [.dynamic, columns], c⟩
      ⟨.dense .f32 [rows, columns], c⟩ :=
    fun columns c => ⟨⟨rfl, .cons (.inl rfl) (.cons (.inr rfl) .nil), rfl⟩, rfl⟩
  have hparameter : ∀ id name columns c, Expression.SpecializesTo
      ⟨id, name, .parameter, [], [], [⟨.dense .f32 [.dynamic, columns], c⟩]⟩
      ⟨id, name, .parameter, [], [], [⟨.dense .f32 [rows, columns], c⟩]⟩ :=
    fun id name columns c => ⟨rfl, rfl, rfl, rfl, .nil, .cons (hslot columns c) .nil⟩
  have hload : ∀ id name columns c c', Expression.SpecializesTo
      ⟨id, name, .load, [0], [⟨.dense .f32 [.dynamic, columns], c⟩],
        [⟨.dense .f32 [.dynamic, columns], c'⟩]⟩
      ⟨id, name, .load, [0], [⟨.dense .f32 [rows, columns], c⟩],
        [⟨.dense .f32 [rows, columns], c'⟩]⟩ :=
    fun id name columns c c' =>
      ⟨rfl, rfl, rfl, rfl, .cons (hslot columns c) .nil, .cons (hslot columns c') .nil⟩
  exact ⟨.cons (hparameter ..) (.cons (hparameter ..) (.cons (hload ..) (.cons (hload ..) .nil))),
    rfl⟩

/-- Walks along the rows of the first load. -/
def rowPort : LoopPort := .moving ⟨2, .input, 0⟩ 1

/-- Walks along the columns of a load. -/
def columnPort (load : ExprId) : LoopPort := .moving ⟨load, .output, 0⟩ 0

namespace LoopRecord

/-- The columns of the two loads do not fit. With three iterations the rows are broadcast once their
number is known to be one, and the columns are walked as before. -/
theorem specialization_keeps_rowLoads :
    (rowLoads .dynamic).SpecializesTo (rowLoads (.known 1)) ∧
      (⟨.dynamic, [], [columnPort 2]⟩ : LoopRecord).mergedExtent (rowLoads (.known 1)) 0 =
        .ok (.known 4) ∧
      (⟨.dynamic, [], [columnPort 2, columnPort 3]⟩ : LoopRecord).mergedExtent
          (rowLoads (.known 1)) 0 = .error (.incompatible 0 (.known 4) (.known 3)) ∧
      (LoopRecord.refresh ⟨.dynamic, [rowPort], [columnPort 2]⟩ (rowLoads .dynamic) 0
          (.known 3)).state =
        ⟨.known 3, [rowPort.withIncrement (.known 4) (.known 3)],
          [(columnPort 2).withIncrement (.known 1) (.known 3)]⟩ ∧
      ∃ p q, (LoopRecord.refresh ⟨.dynamic, [rowPort], [columnPort 2]⟩ (rowLoads (.known 1)) 0
          (.known 3)).state = ⟨.known 3, [p], [q]⟩ ∧
        p.increment = .zero ∧ p.finalization = .zero ∧
        q.increment = .known 1 ∧ q.finalization = .known (-3) := by
  have hspecializes := rowLoads_specializesTo (.known 1)
  obtain ⟨hmerged, -, -⟩ :=
    specialization_keeps hspecializes ⟨.dynamic, [], [columnPort 2]⟩ 0
  obtain ⟨-, hconflict, -⟩ :=
    specialization_keeps hspecializes ⟨.dynamic, [], [columnPort 2, columnPort 3]⟩ 0
  obtain ⟨-, -, hrefresh⟩ :=
    specialization_keeps hspecializes ⟨.dynamic, [rowPort], [columnPort 2]⟩ 0
  obtain ⟨-, hrelated⟩ := hrefresh (.known 3) (by decide)
  have hbefore : (LoopRecord.refresh ⟨.dynamic, [rowPort], [columnPort 2]⟩ (rowLoads .dynamic) 0
      (.known 3)).state = ⟨.known 3, [rowPort.withIncrement (.known 4) (.known 3)],
        [(columnPort 2).withIncrement (.known 1) (.known 3)]⟩ := by decide +kernel
  rw [hbefore] at hrelated
  obtain ⟨hentries, hexits⟩ := hrelated
  obtain ⟨p, _, hp, hnil, hafter⟩ := List.forall₂_cons_left_iff.mp hentries
  obtain ⟨q, _, hq, hnil', hafter'⟩ := List.forall₂_cons_left_iff.mp hexits
  cases hnil
  cases hnil'
  have hrow : (rowPort.withIncrement (.known 4) (.known 3)).NewlyBroadcast (rowLoads .dynamic)
      (rowLoads (.known 1)) (.known 3) := ⟨_, _, rfl, rfl, rfl, rfl, rfl, by decide⟩
  have hcolumn : ¬ ((columnPort 2).withIncrement (.known 1) (.known 3)).NewlyBroadcast
      (rowLoads .dynamic) (rowLoads (.known 1)) (.known 3) := by
    intro h
    obtain ⟨w, w', hw, -, houter, -⟩ := h
    cases hw
    cases houter
  refine ⟨hspecializes, hmerged 4 (by decide), hconflict 0 _ _ (by decide), hbefore, p, q, ?_,
    (hp.increment 4 rfl).2 hrow, (hp.finalization (-12) (by decide)).2 hrow,
    (hq.increment 1 rfl).1 hcolumn, (hq.finalization (-3) (by decide)).1 hcolumn⟩
  rw [← hafter, ← hafter']
  rfl

end LoopRecord

end TensorLoops
