import TensorLoops.Pointer
import TensorLoops.Proofs.LoweredProgram
import TensorLoops.Proofs.PhysicalAxes

namespace TensorLoops

/-- Each axis of a tensor whose layout holds every axis once can be walked. -/
theorem Descriptor.exists_walk {d : Descriptor} {dim : Nat}
    (h : List.Perm d.layout (List.range d.shape.length)) (hdim : dim < d.shape.length)
    (direction : Direction) : ∃ w, d.walk direction dim = .ok w := by
  obtain ⟨axis, haxis, ha⟩ := (bijOn_axis? h).mapsTo (f := d.axis? direction) hdim
  exact ⟨⟨d.shape, axis, haxis⟩, by simp [walk, ← ha, Set.mem_Iio.mp haxis]⟩

theorem Expression.mem_slots {e : Expression} {direction : Direction} {s : Slot}
    (h : s ∈ e.slots direction) : s ∈ e.inputs ++ e.outputs := by
  cases direction with
  | input => exact List.mem_append_left _ h
  | output => exact List.mem_append_right _ h

namespace Graph

theorem expression_eq_ok {g : Graph} {id : ExprId} {e : Expression} :
    g.expression id = .ok e ↔ g.expressions[id]? = some e := by
  unfold expression
  cases g.expressions[id]? <;> simp

theorem connector_eq_ok {g : Graph} {id : ConnectorId} {c : Connector} :
    g.connector id = .ok c ↔ g.connectors[id]? = some c := by
  unfold connector
  cases g.connectors[id]? <;> simp

theorem slot_eq_ok {g : Graph} {port : Port} {s : Slot} :
    g.slot port = .ok s ↔
      ∃ e, g.expression port.expr = .ok e ∧ (e.slots port.direction)[port.index]? = some s := by
  unfold slot
  cases g.expression port.expr with
  | error err => simp
  | ok e => cases he : (e.slots port.direction)[port.index]? <;> simp [he]

theorem descriptor_eq_ok {g : Graph} {port : Port} {d : Descriptor} :
    g.descriptor port = .ok d ↔ ∃ s, g.slot port = .ok s ∧ s.descriptor = d := by
  unfold descriptor
  cases g.slot port <;> simp

/-- Looking for a boundary succeeds when all expressions that it looks at exist. -/
theorem exists_anyBoundary {g : Graph} {ports : List Port}
    (h : ∀ port ∈ ports, ∃ other, g.expression port.expr = .ok other) (e : Expression)
    (loop : LoopId) : ∃ b, g.anyBoundary e loop ports = .ok b := by
  induction ports with
  | nil => exact ⟨false, rfl⟩
  | cons port rest ih =>
    obtain ⟨⟨other, hother⟩, hrest⟩ := List.forall_mem_cons.mp h
    unfold anyBoundary
    rw [hother]
    dsimp only
    split
    · exact ⟨true, rfl⟩
    · exact ih hrest

namespace WellFormed

variable {g : Graph}

theorem expression_id (h : g.WellFormed) {e : Expression} (he : e ∈ g.expressions) :
    g.expression e.id = .ok e := by
  obtain ⟨i, hi⟩ := List.mem_iff_getElem?.mp he
  rw [h.ids i e hi]
  exact expression_eq_ok.mpr hi

/-- The connector of a port exists, and so do the expressions on the other side. -/
theorem exists_otherSide (h : g.WellFormed) {port : Port} {s : Slot} (hs : g.slot port = .ok s) :
    ∃ c, g.portConnector port = .ok c ∧
      ∀ other ∈ otherSide c port.direction, ∃ e, g.expression other.expr = .ok e := by
  obtain ⟨e, he, hslot⟩ := slot_eq_ok.mp hs
  have hmem : e ∈ g.expressions := List.mem_of_getElem? (expression_eq_ok.mp he)
  have hslot := List.mem_of_getElem? hslot
  rw [portConnector, hs]
  dsimp only
  cases hd : port.direction with
  | input =>
    rw [hd] at hslot
    obtain ⟨c, hc, hlt⟩ := h.earlier e hmem s hslot
    refine ⟨c, connector_eq_ok.mpr hc, fun other hother => ?_⟩
    cases List.mem_singleton.mp hother
    -- the producer stands before an expression, so its position is one of the graph
    obtain ⟨i, hi⟩ := List.mem_iff_getElem?.mp hmem
    have hbound := (List.getElem?_eq_some_iff.mp hi).1
    rw [h.ids i e hi] at hlt
    exact ⟨_, expression_eq_ok.mpr (List.getElem?_eq_getElem (Nat.lt_trans hlt hbound))⟩
  | output =>
    rw [hd] at hslot
    obtain ⟨c, hc, -⟩ := h.produced e hmem s hslot
    refine ⟨c, connector_eq_ok.mpr hc, fun other hother => ?_⟩
    rw [otherSide, h.consumers _ c hc] at hother
    obtain ⟨consumer, hconsumer, hport⟩ := List.mem_flatMap.mp hother
    obtain ⟨⟨slot, k⟩, -, hport⟩ := List.mem_filterMap.mp hport
    dsimp only at hport
    split at hport
    · cases hport
      exact ⟨consumer, h.expression_id hconsumer⟩
    · cases hport

/-- A pointer is classified with respect to each loop around its expression. -/
theorem exists_pointer (h : g.WellFormed) {loop : LoopId} {port : Port} {e : Expression}
    {s : Slot} (he : g.expression port.expr = .ok e) (hloop : loop ∈ e.loops)
    (hs : g.slot port = .ok s) : ∃ pointer, g.pointer loop port = .ok pointer := by
  obtain ⟨c, hc, hother⟩ := h.exists_otherSide hs
  obtain ⟨b, hb⟩ := exists_anyBoundary hother e loop
  obtain ⟨inner, hinner⟩ : ∃ inner, e.innermost? = some inner :=
    ⟨_, List.getLast?_eq_some_getLast (List.ne_nil_of_mem hloop)⟩
  unfold pointer behindBuffer
  rw [he, hc]
  dsimp only
  rw [hinner, hb]
  cases e.operation.accessesMemory with
  | false => exact ⟨.absent, rfl⟩
  | true =>
    by_cases hin : inner = loop
    · exact ⟨.free, by simp [hin]⟩
    · cases b with
      | true => exact ⟨.held, by simp [hin]⟩
      | false => exact ⟨.free, by simp [hin]⟩

end WellFormed

end Graph

namespace LoopPort

/-- What a run looks up for the port is there. -/
structure Found (q : LoopPort) (g : Graph) (loop : LoopId) : Prop where
  walk : ∃ w, q.walk g = .ok w
  pointer : ∃ pointer, g.pointer loop q.port = .ok pointer

end LoopPort

/-- In a well-formed program everything that a run looks up is there. -/
theorem Program.WellFormed.found {p : Program} (h : p.WellFormed) :
    ∀ x ∈ p.loops.entries, ∀ q ∈ x.2.ports, q.Found p.graph x.1 := by
  intro x hx q hq
  obtain ⟨e, d, he, hloop, hd, hdim⟩ := h.ports x hx q hq
  obtain ⟨s, hs, rfl⟩ := Graph.descriptor_eq_ok.mp hd
  constructor
  · obtain ⟨e', he', hslot⟩ := Graph.slot_eq_ok.mp hs
    have hmem : e' ∈ p.graph.expressions :=
      List.mem_of_getElem? (Graph.expression_eq_ok.mp he')
    have hslot := Expression.mem_slots (List.mem_of_getElem? hslot)
    rw [LoopPort.walk_of_descriptor hd]
    exact Descriptor.exists_walk (h.graph.layouts e' hmem s hslot) hdim _
  · exact h.graph.exists_pointer he hloop hs

end TensorLoops
