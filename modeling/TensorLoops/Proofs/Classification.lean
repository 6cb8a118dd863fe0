import TensorLoops.Proofs.Calls

namespace TensorLoops

/-- The loops from the outermost one that both expressions are in, as many as there are. -/
structure IsCommonPrefix (shared as bs : List LoopId) : Prop where
  left : shared <+: as
  right : shared <+: bs
  longest : ∀ other, other <+: as → other <+: bs → other <+: shared

theorem IsCommonPrefix.unique {shared shared' as bs : List LoopId}
    (h : IsCommonPrefix shared as bs) (h' : IsCommonPrefix shared' as bs) : shared = shared' := by
  have hle := (h'.longest shared h.left h.right).length_le
  exact (h.longest shared' h'.left h'.right).eq_of_length_le hle |>.symm

theorem isCommonPrefix_commonLoops (as bs : List LoopId) :
    IsCommonPrefix (commonLoops as bs) as bs := by
  fun_induction commonLoops as bs with
  | case1 as b bs ih =>
    have hcons : ∀ {s t : List LoopId}, s <+: t → b :: s <+: b :: t := (List.prefix_cons_inj b).mpr
    refine ⟨hcons ih.left, hcons ih.right, fun other hleft hright => ?_⟩
    cases other with
    | nil => exact List.nil_prefix
    | cons c other =>
      obtain ⟨rfl, hleft'⟩ := List.cons_prefix_cons.mp hleft
      exact hcons (ih.longest other hleft' (List.cons_prefix_cons.mp hright).2)
  | case2 a as b bs hne =>
    refine ⟨List.nil_prefix, List.nil_prefix, fun other hleft hright => ?_⟩
    cases other with
    | nil => exact List.nil_prefix
    | cons c other =>
      obtain ⟨rfl, -⟩ := List.cons_prefix_cons.mp hleft
      exact absurd (List.cons_prefix_cons.mp hright).1 hne
  | case3 as bs hempty =>
    refine ⟨List.nil_prefix, List.nil_prefix, fun other hleft hright => ?_⟩
    cases as with
    | nil => exact hleft
    | cons a as =>
      cases bs with
      | nil => exact hright
      | cons b bs => exact absurd rfl (hempty a as b bs rfl)

/-- Two expressions share their loops down to `loop`. -/
theorem sharesLoops_iff {as bs : List LoopId} {loop : LoopId} :
    sharesLoops as bs loop = true ↔ ∃ shared, IsCommonPrefix shared as bs ∧ loop ∈ shared := by
  rw [sharesLoops, List.contains_iff_mem]
  constructor
  · exact fun h => ⟨_, isCommonPrefix_commonLoops as bs, h⟩
  · intro h
    obtain ⟨shared, hshared, hmem⟩ := h
    rwa [(isCommonPrefix_commonLoops as bs).unique hshared]

namespace Graph

variable {g : Graph} {loop : LoopId} {port : Port} {e other : Expression}

/-- The expression stands at the other end of the connector of the port. -/
def Faces (g : Graph) (port : Port) (other : Expression) : Prop :=
  ∃ c, g.portConnector port = .ok c ∧
    match port.direction with
    | .input => g.expression c.source.expr = .ok other
    | .output => ∃ consumer ∈ c.consumers, g.expression consumer.expr = .ok other

/-- A buffer on the other side of the port shares the loops of `e` down to `loop`. -/
def Buffered (g : Graph) (e : Expression) (port : Port) (loop : LoopId) : Prop :=
  ∃ other, g.Faces port other ∧ other.operation.isBuffer = true ∧
    ∃ shared, IsCommonPrefix shared e.loops other.loops ∧ loop ∈ shared

/-- The loop may advance the pointer at the port. -/
def MayMove (g : Graph) (loop : LoopId) (port : Port) : Prop :=
  ∃ e, g.expression port.expr = .ok e ∧ e.operation.accessesMemory = true ∧
    (e.loops.getLast? = some loop ∨ ¬ g.Buffered e port loop)

theorem isBoundary_iff :
    isBoundary e other loop = true ↔ other.operation.isBuffer = true ∧
      ∃ shared, IsCommonPrefix shared e.loops other.loops ∧ loop ∈ shared := by
  rw [isBoundary, Bool.and_eq_true, sharesLoops_iff]

/-- The search for a boundary finds one if there is one, and otherwise has looked at every port. -/
theorem anyBoundary_eq_ok {ports : List Port} {b : Bool} (h : g.anyBoundary e loop ports = .ok b) :
    b = true ↔ ∃ port ∈ ports, ∃ other, g.expression port.expr = .ok other ∧
      isBoundary e other loop = true := by
  induction ports with
  | nil =>
    cases h
    simp
  | cons port rest ih =>
    unfold anyBoundary at h
    cases hother : g.expression port.expr with
    | error err => simp [hother] at h
    | ok other =>
      simp only [hother] at h
      split at h
      · rename_i hboundary
        cases h
        exact iff_of_true rfl ⟨port, List.mem_cons_self, other, hother, hboundary⟩
      · rename_i hno
        rw [ih h]
        simp [hother, hno]

theorem faces_iff {c : Connector} (h : g.portConnector port = .ok c) :
    g.Faces port other ↔
      ∃ far ∈ otherSide c port.direction, g.expression far.expr = .ok other := by
  simp only [Faces, h, Except.ok.injEq, exists_eq_left']
  cases port.direction <;> simp [otherSide]

theorem behindBuffer_eq_ok {b : Bool} (h : g.behindBuffer e port loop = .ok b) :
    b = true ↔ g.Buffered e port loop := by
  unfold behindBuffer at h
  cases hc : g.portConnector port with
  | error err => simp [hc] at h
  | ok c =>
    rw [hc] at h
    rw [anyBoundary_eq_ok h]
    simp only [Buffered, faces_iff hc, ← isBoundary_iff]
    constructor
    · intro hfound
      obtain ⟨far, hmem, other, hother, hboundary⟩ := hfound
      exact ⟨other, ⟨far, hmem, hother⟩, hboundary⟩
    · intro hbuffered
      obtain ⟨other, ⟨far, hmem, hother⟩, hboundary⟩ := hbuffered
      exact ⟨far, hmem, other, hother, hboundary⟩

/-- A pointer that has been classified is free exactly if the loop may advance it. -/
theorem pointer_eq_ok {pointer : Pointer} (h : g.pointer loop port = .ok pointer) :
    pointer = .free ↔ g.MayMove loop port := by
  unfold Graph.pointer at h
  cases he : g.expression port.expr with
  | error err => simp [he] at h
  | ok e =>
    simp only [MayMove, he, Except.ok.injEq, exists_eq_left']
    simp only [he] at h
    cases hmemory : e.operation.accessesMemory with
    | false =>
      rw [hmemory] at h
      cases h
      simp
    | true =>
      rw [hmemory] at h
      simp only [if_true, Expression.innermost?] at h
      cases hinner : e.loops.getLast? with
      | none => simp [hinner] at h
      | some inner =>
        simp only [hinner] at h
        by_cases hsame : inner = loop
        · rw [if_pos hsame] at h
          cases h
          simp [hsame]
        · rw [if_neg hsame] at h
          cases hbuffer : g.behindBuffer e port loop with
          | error err => simp [hbuffer] at h
          | ok b =>
            have hiff := behindBuffer_eq_ok hbuffer
            rw [hbuffer] at h
            cases b with
            | true =>
              cases h
              simp [hsame, hiff.mp rfl]
            | false =>
              cases h
              simp [← hiff]

end Graph

namespace Pointer

theorem moves_eq_true {pointer : Pointer} {b : Bool} :
    pointer.moves b = true ↔ b = true ∧ pointer = .free := by
  cases pointer <;> simp [moves]

end Pointer

namespace LoopRecord

/-- After a full run on a loop, a pointer moves exactly if it moved before and the loop may advance
it; the ports have stayed in their places. -/
theorem related_resolve_mayMove {r : LoopRecord} {g : Graph} {loop : LoopId}
    (h : (r.resolve g loop .full).result = .ok ()) :
    r.Related (fun q q' => q'.place = q.place ∧
      (q'.incremented = true ↔ q.incremented = true ∧ g.MayMove loop q.port))
      (r.resolve g loop .full).state := by
  obtain ⟨workAmount, -, hports⟩ := reaches_resolve.mp (Attempt.reaches_state h)
  obtain ⟨-, hentries, hexits⟩ := reaches_eachPort.mp hports
  have hport : ∀ q q' : LoopPort, (q.resolve g loop workAmount .full).Reaches q' →
      q'.place = q.place ∧
        (q'.incremented = true ↔ q.incremented = true ∧ g.MayMove loop q.port) := by
    intro q q' hreaches
    obtain ⟨-, hport, hdim, pointer, hpointer, hmoves⟩ := LoopPort.settled_resolve hreaches
    refine ⟨by rw [LoopPort.place, LoopPort.place, hport, hdim], ?_⟩
    rw [hmoves, Pointer.moves_eq_true, Graph.pointer_eq_ok hpointer]
  exact ⟨hentries.imp hport, hexits.imp hport⟩

/-- A load and a store in two loops, and a buffer behind the store in the outer one of them. -/
def loadStoreBuffer : Graph :=
  let four : Descriptor := .dense .f32 [.known 4, .known 4]
  { expressions :=
      [⟨0, some "p", .parameter, [], [], [⟨four, 0⟩]⟩,
        ⟨1, some "ld", .load, [0, 1], [⟨four, 0⟩], [⟨four, 1⟩]⟩,
        ⟨2, some "st", .store, [0, 1], [⟨four, 1⟩], [⟨four, 2⟩]⟩,
        ⟨3, some "buf", .buffer, [0], [⟨four, 2⟩], [⟨four, 3⟩]⟩]
    connectors :=
      [⟨⟨0, .output, 0⟩, [⟨1, .input, 0⟩]⟩, ⟨⟨1, .output, 0⟩, [⟨2, .input, 0⟩]⟩,
        ⟨⟨2, .output, 0⟩, [⟨3, .input, 0⟩]⟩, ⟨⟨3, .output, 0⟩, []⟩] }

/-- The load and the store of a loop. -/
def loadToStore (dim : Nat) : LoopRecord :=
  ⟨.dynamic, [.moving ⟨1, .input, 0⟩ dim], [.moving ⟨2, .output, 0⟩ dim]⟩

/-- The outer loop moves the pointer of the load but not that of the store, which is behind the
buffer. -/
theorem related_resolve_mayMove_outer :
    ((loadToStore 1).resolve loadStoreBuffer 0 .full).result = .ok () ∧
      loadStoreBuffer.MayMove 0 ⟨1, .input, 0⟩ ∧ ¬ loadStoreBuffer.MayMove 0 ⟨2, .output, 0⟩ := by
  have hrun : ((loadToStore 1).resolve loadStoreBuffer 0 .full).result = .ok () := by decide
  have hmoves : ((loadToStore 1).resolve loadStoreBuffer 0 .full).state.entries.map
      LoopPort.incremented = [true] := by decide
  have hstays : ((loadToStore 1).resolve loadStoreBuffer 0 .full).state.exits.map
      LoopPort.incremented = [false] := by decide
  obtain ⟨hentries, hexits⟩ := related_resolve_mayMove hrun
  obtain ⟨load, _, ⟨-, hload⟩, -, heq⟩ := List.forall₂_cons_left_iff.mp hentries
  obtain ⟨store, _, ⟨-, hstore⟩, -, heq'⟩ := List.forall₂_cons_left_iff.mp hexits
  rw [heq] at hmoves
  rw [heq'] at hstays
  obtain ⟨hmoves, -⟩ := List.cons.inj hmoves
  obtain ⟨hstays, -⟩ := List.cons.inj hstays
  refine ⟨hrun, (hload.mp hmoves).2, fun hmay => ?_⟩
  rw [hstore.mpr ⟨rfl, hmay⟩] at hstays
  cases hstays

end LoopRecord

end TensorLoops
