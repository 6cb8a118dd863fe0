import TensorLoops.Proofs.Declarations
import TensorLoops.Proofs.Permutations

namespace TensorLoops

namespace Descriptor

/-- Some type describes the tensor. -/
def Described (d : Descriptor) : Prop := ∃ type, resolveType type = .ok d

theorem Described.perm_layout {d : Descriptor} (h : d.Described) :
    List.Perm d.layout (List.range d.shape.length) := by
  obtain ⟨type, ht⟩ := h
  obtain ⟨-, -, hl⟩ := resolveType_eq_ok.mp ht
  cases hlayout : type.value.layout with
  | none =>
    rw [hlayout] at hl
    exact hl ▸ .refl _
  | some axes =>
    rw [hlayout] at hl
    obtain ⟨hlen, haxes, hperm⟩ := hl
    have hrank : d.layout.length = d.shape.length := by rw [← haxes, List.length_map, hlen]
    exact hrank ▸ Layout.perm_of_isPermutation hperm

end Descriptor

namespace Graph

/-- The inputs among `slots` that are attached to a connector, as ports of expression `id` counted
from `index`. -/
def attachedSlots (id : ExprId) (connector : ConnectorId) (index : Nat) (slots : List Slot) :
    List Port :=
  (slots.zipIdx index).filterMap fun (slot, k) =>
    if slot.connector = connector then some ⟨id, .input, k⟩ else none

/-- All inputs that are attached to a connector, by expression and then by index. -/
def attachedPorts (g : Graph) (connector : ConnectorId) : List Port :=
  g.expressions.flatMap fun e => attachedSlots e.id connector 0 e.inputs

/-- The tables of expressions and connectors fit together. -/
structure WellFormed (g : Graph) : Prop where
  /-- The id of an expression is its position. -/
  ids : ∀ (i : ExprId) (e : Expression), g.expressions[i]? = some e → e.id = i
  names : (g.expressions.filterMap Expression.name).Nodup
  oneResult : ∀ e ∈ g.expressions, e.outputs.length ≤ 1
  /-- The connector of a result starts at this result. -/
  produced : ∀ e ∈ g.expressions, ∀ s ∈ e.outputs, ∃ c, g.connectors[s.connector]? = some c ∧
    c.source = ⟨e.id, .output, 0⟩
  /-- Each connector is that of a result. -/
  sources : ∀ i c, g.connectors[i]? = some c → ∃ e ∈ g.expressions, ∃ s, e.outputs = [s] ∧
    s.connector = i ∧ c.source = ⟨e.id, .output, 0⟩
  /-- An operand comes from an expression before. -/
  earlier : ∀ e ∈ g.expressions, ∀ s ∈ e.inputs, ∃ c, g.connectors[s.connector]? = some c ∧
    c.source.expr < e.id
  /-- The consumers of a connector are the inputs attached to it. -/
  consumers : ∀ i c, g.connectors[i]? = some c → c.consumers = g.attachedPorts i
  layouts : ∀ e ∈ g.expressions, ∀ s ∈ e.inputs ++ e.outputs,
    List.Perm s.descriptor.layout (List.range s.descriptor.shape.length)

/-- The name of the expression whose result a connector carries. -/
def producerName? (g : Graph) (id : ConnectorId) : Option String :=
  g.connectors[id]?.bind fun c => g.expressions[c.source.expr]?.bind Expression.name

theorem producerName?_eq_some {g : Graph} {id : ConnectorId} {n : String} :
    g.producerName? id = some n ↔
      ∃ c e, g.connectors[id]? = some c ∧ g.expressions[c.source.expr]? = some e ∧
        e.name = some n := by
  simp only [producerName?, Option.bind_eq_some_iff]
  constructor
  · intro h
    obtain ⟨c, hc, e, he, hn⟩ := h
    exact ⟨c, e, hc, he, hn⟩
  · intro h
    obtain ⟨c, e, hc, he, hn⟩ := h
    exact ⟨c, hc, e, he, hn⟩

/-- The expression can be appended to the graph of a kernel with the loops `declared`. -/
structure Accepts (g : Graph) (declared : List LoopId) (name : Option String) (r : Resolved) :
    Prop where
  fresh : ∀ n ∈ name, ∀ e ∈ g.expressions, e.name ≠ some n
  arity : r.inputs.length = r.operation.inputs
  produced : ∀ s ∈ r.inputs, ∃ n, g.producerName? s.connector = some n
  inputs : ∀ s ∈ r.inputs, s.descriptor.Described
  output : ∀ d ∈ r.output, d.Described
  result : r.output = none ↔ r.operation.outputs = 0
  loops : ∀ loop ∈ r.loops, loop ∈ declared

/-- The expression that `append` adds. -/
def appended (g : Graph) (name : Option String) (r : Resolved) : Expression :=
  { id := g.expressions.length, name, operation := r.operation, loops := r.loops
    inputs := r.inputs
    outputs := r.output.toList.map fun descriptor => ⟨descriptor, g.connectors.length⟩ }

theorem attachedSlots_cons (id : ExprId) (connector : ConnectorId) (index : Nat) (slot : Slot)
    (slots : List Slot) :
    attachedSlots id connector index (slot :: slots) =
      (if slot.connector = connector then [⟨id, .input, index⟩] else []) ++
        attachedSlots id connector (index + 1) slots := by
  by_cases hs : slot.connector = connector <;> simp [attachedSlots, List.zipIdx_cons, hs]

/-- A connector keeps its source and gains the inputs that are attached to it. -/
theorem getElem?_attach (id : ExprId) (index : Nat) (slots : List Slot) (cs : List Connector)
    (i : ConnectorId) :
    (attach id index slots cs)[i]? = cs[i]?.map fun c =>
      { c with consumers := c.consumers ++ attachedSlots id i index slots } := by
  induction slots generalizing index cs with
  | nil => cases hc : cs[i]? <;> simp [attach, attachedSlots, hc]
  | cons slot slots ih =>
    rw [attach, ih, attachedSlots_cons, List.getElem?_modify]
    cases cs[i]? with
    | none => rfl
    | some c => by_cases hs : slot.connector = i <;> simp [hs]

theorem length_attach (id : ExprId) (index : Nat) (slots : List Slot) (cs : List Connector) :
    (attach id index slots cs).length = cs.length := by
  induction slots generalizing index cs with
  | nil => rfl
  | cons slot slots ih => rw [attach, ih, List.length_modify]

theorem expressions_append (g : Graph) (name : Option String) (r : Resolved) :
    (g.append name r).expressions = g.expressions ++ [g.appended name r] := by
  simp only [append, appended, length_attach]

theorem mem_expressions_append {g : Graph} {name : Option String} {r : Resolved} {e : Expression} :
    e ∈ (g.append name r).expressions ↔ e ∈ g.expressions ∨ e = g.appended name r := by
  rw [expressions_append, List.mem_append, List.mem_singleton]

theorem getElem?_expressions_append {g : Graph} {i : ExprId} {e : Expression}
    (h : g.expressions[i]? = some e) (name : Option String) (r : Resolved) :
    (g.append name r).expressions[i]? = some e := by
  rw [expressions_append]
  exact (List.getElem?_append_left (List.getElem?_eq_some_iff.mp h).1).trans h

theorem mem_outputs_appended {g : Graph} {name : Option String} {r : Resolved} {s : Slot} :
    s ∈ (g.appended name r).outputs ↔ ∃ d, r.output = some d ∧ s = ⟨d, g.connectors.length⟩ := by
  simp [appended, eq_comm]

/-- An expression of the new graph is one of the old or the new one. -/
theorem expressions_append_cases {g : Graph} {name : Option String} {r : Resolved} {i : ExprId}
    {e : Expression} (h : (g.append name r).expressions[i]? = some e) :
    g.expressions[i]? = some e ∨ i = g.expressions.length ∧ e = g.appended name r := by
  rw [expressions_append, List.getElem?_append] at h
  split at h
  · exact .inl h
  · rename_i hi
    rw [List.getElem?_singleton] at h
    split at h
    · rename_i hz
      cases h
      have hle : i ≤ g.expressions.length := Nat.sub_eq_zero_iff_le.mp hz
      exact .inr ⟨Nat.le_antisymm hle (Nat.le_of_not_lt hi), rfl⟩
    · cases h

/-- A connector of the graph gains the inputs of the new expression that are attached to it. -/
theorem getElem?_connectors_append {g : Graph} {i : ConnectorId} {c : Connector}
    (h : g.connectors[i]? = some c) (name : Option String) (r : Resolved) :
    (g.append name r).connectors[i]? = some { c with
      consumers := c.consumers ++ attachedSlots g.expressions.length i 0 r.inputs } := by
  have hi := (List.getElem?_eq_some_iff.mp h).1
  simp only [append]
  rw [List.getElem?_append_left (by rw [length_attach]; exact hi), getElem?_attach, h]
  rfl

/-- The connector of a new result follows those of the graph. -/
theorem getElem?_connectors_append_length {g : Graph} {r : Resolved} {d : Descriptor}
    (h : r.output = some d) (name : Option String) :
    (g.append name r).connectors[g.connectors.length]? =
      some ⟨⟨g.expressions.length, .output, 0⟩, []⟩ := by
  simp [append, h, ← length_attach g.expressions.length 0 r.inputs g.connectors]

/-- A connector of the new graph is one of the old or that of the new result. -/
theorem connectors_append_cases {g : Graph} {name : Option String} {r : Resolved}
    {i : ConnectorId} {c : Connector} (h : (g.append name r).connectors[i]? = some c) :
    (∃ c', g.connectors[i]? = some c' ∧ c.source = c'.source ∧
      c.consumers = c'.consumers ++ attachedSlots g.expressions.length i 0 r.inputs) ∨
    i = g.connectors.length ∧ (∃ d, r.output = some d) ∧
      c = ⟨⟨g.expressions.length, .output, 0⟩, []⟩ := by
  by_cases hi : i < g.connectors.length
  · left
    obtain ⟨c', hc'⟩ : ∃ c', g.connectors[i]? = some c' := ⟨_, List.getElem?_eq_getElem hi⟩
    rw [getElem?_connectors_append hc'] at h
    cases h
    exact ⟨c', hc', rfl, rfl⟩
  · right
    simp only [append] at h
    have hge : g.connectors.length ≤ i := Nat.le_of_not_lt hi
    rw [List.getElem?_append_right (by rw [length_attach]; exact hge), length_attach] at h
    cases ho : r.output with
    | none => simp [ho] at h
    | some d =>
      rw [ho] at h
      have hlt := (List.getElem?_eq_some_iff.mp h).1
      simp only [Option.toList_some, List.map_cons, List.map_nil, List.length_singleton] at hlt
      have hle : i ≤ g.connectors.length := Nat.sub_eq_zero_iff_le.mp (Nat.lt_one_iff.mp hlt)
      have hlen := Nat.le_antisymm hle hge
      subst hlen
      simp only [Nat.sub_self, Option.toList_some, List.map_cons, List.getElem?_cons_zero,
        Option.some.injEq] at h
      exact ⟨rfl, ⟨d, rfl⟩, h.symm⟩

/-- Producers keep their names when an expression is appended. -/
theorem producerName?_append {g : Graph} {id : ConnectorId} {n : String}
    (h : g.producerName? id = some n) (name : Option String) (r : Resolved) :
    (g.append name r).producerName? id = some n := by
  obtain ⟨c, e, hc, he, hn⟩ := producerName?_eq_some.mp h
  exact producerName?_eq_some.mpr ⟨_, e, getElem?_connectors_append hc name r,
    getElem?_expressions_append he name r, hn⟩

/-- The ports attached in the new graph are those of the old one and those of the new inputs. -/
theorem attachedPorts_append (g : Graph) (name : Option String) (r : Resolved) (i : ConnectorId) :
    (g.append name r).attachedPorts i =
      g.attachedPorts i ++ attachedSlots g.expressions.length i 0 r.inputs := by
  simp only [attachedPorts, expressions_append, List.flatMap_append, List.flatMap_singleton]
  rfl

/-- Nothing is attached to a connector that does not exist yet. -/
theorem attachedSlots_of_lt {id : ExprId} {connector : ConnectorId} {slots : List Slot}
    (h : ∀ s ∈ slots, s.connector < connector) (index : Nat) :
    attachedSlots id connector index slots = [] := by
  induction slots generalizing index with
  | nil => rfl
  | cons slot slots ih =>
    have hne := Nat.ne_of_lt (h slot List.mem_cons_self)
    rw [attachedSlots_cons, if_neg hne, ih (fun s hs => h s (List.mem_cons_of_mem _ hs))]
    rfl

theorem wellFormed_empty : Graph.empty.WellFormed := by
  constructor <;> simp [Graph.empty]

namespace WellFormed

variable {g : Graph} {declared : List LoopId} {name : Option String} {r : Resolved}

/-- The operands of an accepted expression are attached to connectors of the graph. -/
theorem connector_lt (ha : g.Accepts declared name r) :
    ∀ s ∈ r.inputs, s.connector < g.connectors.length := by
  intro s hs
  obtain ⟨n, hn⟩ := ha.produced s hs
  obtain ⟨c, -, hc, -⟩ := producerName?_eq_some.mp hn
  exact (List.getElem?_eq_some_iff.mp hc).1

/-- The tensors of an accepted expression are described by types. -/
theorem described_appended (ha : g.Accepts declared name r) :
    ∀ s ∈ (g.appended name r).inputs ++ (g.appended name r).outputs, s.descriptor.Described := by
  intro s hs
  rcases List.mem_append.mp hs with hs | hs
  · exact ha.inputs s hs
  · obtain ⟨d, hd, rfl⟩ := mem_outputs_appended.mp hs
    exact ha.output d hd

/-- Appending an accepted expression keeps a graph well formed. -/
theorem append (h : g.WellFormed) (ha : g.Accepts declared name r) :
    (g.append name r).WellFormed where
  ids := by
    intro i e he
    rcases expressions_append_cases he with he | ⟨rfl, rfl⟩
    · exact h.ids i e he
    · rfl
  names := by
    rw [expressions_append, List.filterMap_append]
    refine List.nodup_append.mpr ⟨h.names, ?_, ?_⟩
    · cases name <;> simp [appended]
    · intro a hl b hb hab
      subst hab
      obtain ⟨e, he, hn⟩ := List.mem_filterMap.mp hl
      refine ha.fresh a ?_ e he hn
      cases name <;> simp_all [appended]
  oneResult := by
    intro e he
    rcases mem_expressions_append.mp he with he | rfl
    · exact h.oneResult e he
    · cases ho : r.output <;> simp [appended, ho]
  produced := by
    intro e he s hs
    rcases mem_expressions_append.mp he with he | rfl
    · obtain ⟨c, hc, hsource⟩ := h.produced e he s hs
      exact ⟨_, getElem?_connectors_append hc name r, hsource⟩
    · obtain ⟨d, ho, rfl⟩ := mem_outputs_appended.mp hs
      exact ⟨_, getElem?_connectors_append_length ho name, rfl⟩
  sources := by
    intro i c hc
    rcases connectors_append_cases hc with ⟨c', hc', hs, -⟩ | ⟨rfl, ⟨d, ho⟩, rfl⟩
    · obtain ⟨e, he, s, ho, hi, hsource⟩ := h.sources i c' hc'
      exact ⟨e, mem_expressions_append.mpr (.inl he), s, ho, hi, hs.trans hsource⟩
    · refine ⟨g.appended name r, mem_expressions_append.mpr (.inr rfl),
        ⟨d, g.connectors.length⟩, ?_, rfl, rfl⟩
      simp [appended, ho]
  earlier := by
    intro e he s hs
    rcases mem_expressions_append.mp he with he | rfl
    · obtain ⟨c, hc, hlt⟩ := h.earlier e he s hs
      exact ⟨_, getElem?_connectors_append hc name r, hlt⟩
    · obtain ⟨n, hn⟩ := ha.produced s hs
      obtain ⟨c, producer, hc, hp, -⟩ := producerName?_eq_some.mp hn
      exact ⟨_, getElem?_connectors_append hc name r, (List.getElem?_eq_some_iff.mp hp).1⟩
  consumers := by
    intro i c hc
    rw [attachedPorts_append]
    rcases connectors_append_cases hc with ⟨c', hc', -, hcons⟩ | ⟨rfl, -, rfl⟩
    · rw [hcons, h.consumers i c' hc']
    · rw [attachedSlots_of_lt (connector_lt ha), List.append_nil]
      -- the operands of the expressions before are attached to connectors before
      refine (List.flatMap_eq_nil_iff.mpr fun e he => attachedSlots_of_lt ?_ 0).symm
      intro s hs
      obtain ⟨c', hc', -⟩ := h.earlier e he s hs
      exact (List.getElem?_eq_some_iff.mp hc').1
  layouts := by
    intro e he s hs
    rcases mem_expressions_append.mp he with he | rfl
    · exact h.layouts e he s hs
    · exact (described_appended ha s hs).perm_layout

end WellFormed

end Graph

end TensorLoops
