import TensorLoops.Proofs.Assembly

namespace TensorLoops

/-- The port belongs to a named expression inside the loop, its axis exists, and its numbers can be
written in a kernel. -/
structure LoopPort.Fits (q : LoopPort) (g : Graph) (loop : LoopId) : Prop where
  named : ∃ e n, g.expressions[q.port.expr]? = some e ∧ e.name = some n ∧ loop ∈ e.loops
  axis : ∃ d, g.descriptor q.port = .ok d ∧ q.dim < d.shape.length
  index_lt : q.port.index < UInt64.size
  dim_lt : q.dim < UInt64.size

namespace Scope

variable {s : Scope} {declared : List LoopId}

theorem encloses_eq_true {loop : LoopId} {i : ExprId} :
    s.encloses loop i = true ↔
      ∃ e : Expression, s.graph.expressions[i]? = some e ∧ loop ∈ e.loops := by
  unfold encloses Graph.expression
  cases s.graph.expressions[i]? <;> simp

/-- The loop port that a declaration on expression `i` stands for. -/
def portOf (decl : PortDecl) (i : ExprId) : LoopPort :=
  { LoopPort.moving ⟨i, decl.direction, decl.index.toNat⟩ decl.dim.value.toNat with
    incremented := !decl.fixed }

/-- A port is resolved when it belongs to a defined expression inside the loop and its axis
exists. -/
theorem resolvePort_eq_ok {loop : LoopId} {decl : Located PortDecl} {q : LoopPort} :
    s.resolvePort loop decl = .ok q ↔
      ∃ d descriptor, s.definition? decl.value.value.value = some d ∧ q = portOf decl.value d.expr ∧
        s.graph.descriptor q.port = .ok descriptor ∧ s.encloses loop d.expr = true ∧
        q.dim < descriptor.shape.length := by
  unfold resolvePort
  dsimp only
  constructor
  · intro h
    cases hd : s.definition? decl.value.value.value with
    | none =>
      rw [hd] at h
      dsimp only at h
      split at h <;> cases h
    | some d =>
      rw [hd] at h
      dsimp only at h
      cases hdesc : s.graph.descriptor ⟨d.expr, decl.value.direction, decl.value.index.toNat⟩ with
      | error e =>
        rw [hdesc] at h
        cases h
      | ok descriptor =>
        rw [hdesc] at h
        dsimp only at h
        split at h
        · cases h
        · rename_i henc
          split at h
          · rename_i hdim
            have hq : q = portOf decl.value d.expr := by
              cases hf : decl.value.fixed <;> rw [hf] at h <;> cases h <;>
                simp [portOf, hf, LoopPort.moving, LoopPort.fixed]
            exact ⟨d, descriptor, rfl, hq, hq ▸ hdesc, by simpa using henc, hq ▸ hdim⟩
          · cases h
  · intro h
    obtain ⟨d, descriptor, hd, rfl, hdesc, henc, hdim⟩ := h
    have hport : (portOf decl.value d.expr).port =
        ⟨d.expr, decl.value.direction, decl.value.index.toNat⟩ := rfl
    have hdim' : decl.value.dim.value.toNat < descriptor.shape.length := hdim
    rw [hport] at hdesc
    simp only [hd, hdesc, henc, Bool.not_true, Bool.false_eq_true, if_false, hdim', if_true]
    cases hf : decl.value.fixed <;> simp [portOf, hf, LoopPort.moving, LoopPort.fixed]

theorem Sound.fits_of_port (h : s.Sound declared) {loop : LoopId} {decl : Located PortDecl}
    {q : LoopPort} (hr : s.resolvePort loop decl = .ok q) : q.Fits s.graph loop := by
  obtain ⟨d, descriptor, hd, rfl, hdesc, henc, hdim⟩ := resolvePort_eq_ok.mp hr
  obtain ⟨e, he, hname⟩ := (h.defined _ d.expr).mp ⟨d, hd, rfl⟩
  obtain ⟨e', he', hloop⟩ := encloses_eq_true.mp henc
  cases he.symm.trans he'
  exact ⟨⟨e, _, he, hname, hloop⟩, ⟨descriptor, hdesc, hdim⟩, decl.value.index.toNat_lt,
    decl.value.dim.value.toNat_lt⟩

theorem mem_portsOfKind {loop : LoopId} {kind : PortKind} {decls : List (Located PortDecl)}
    {q : LoopPort} (h : q ∈ s.portsOfKind loop kind decls) :
    ∃ decl ∈ decls, s.resolvePort loop decl = .ok q := by
  unfold portsOfKind Checked.values at h
  obtain ⟨checked, hc, hq⟩ := List.mem_filterMap.mp h
  obtain ⟨decl, hdecl, rfl⟩ := List.mem_map.mp hc
  refine ⟨decl, (List.mem_filter.mp hdecl).1, ?_⟩
  cases hr : s.resolvePort loop decl with
  | error ps =>
    rw [hr] at hq
    cases hq
  | ok q' =>
    rw [hr] at hq
    cases hq
    rfl

theorem Sound.fits_of_record (h : s.Sound declared) (loop : LoopId) (decl : LoopDecl) :
    ∀ q ∈ (s.loopRecord loop decl).ports, q.Fits s.graph loop := by
  intro q hq
  rcases List.mem_append.mp hq with hq | hq
  all_goals
    obtain ⟨port, -, hr⟩ := mem_portsOfKind hq
    exact h.fits_of_port hr

end Scope

namespace LoopTable

/-- The ids of the loops, in ascending order. -/
def ids (t : LoopTable) : List LoopId := t.entries.map Prod.fst

theorem nodup_ids (t : LoopTable) : t.ids.Nodup := by
  refine t.ascending.imp fun {i j} hlt heq => ?_
  rw [heq] at hlt
  exact UInt32.lt_irrefl j hlt

theorem contains_iff {t : LoopTable} {id : LoopId} : t.contains id = true ↔ id ∈ t.ids := by
  simp [contains, ids]

theorem get?_eq_none {t : LoopTable} {id : LoopId} : t.get? id = none ↔ id ∉ t.ids := by
  simp only [get?, Option.map_eq_none_iff, List.find?_eq_none, ids, List.mem_map, not_exists,
    not_and, beq_iff_eq]

theorem perm_insertEntry {id : LoopId} {r : LoopRecord} {l : List (LoopId × LoopRecord)}
    (h : id ∉ l.map Prod.fst) : List.Perm (insertEntry id r l) ((id, r) :: l) := by
  induction l with
  | nil => exact .refl _
  | cons hd tl ih =>
    obtain ⟨k, s⟩ := hd
    obtain ⟨hne, htl⟩ := not_or.mp (fun hc => h (List.mem_cons.mpr hc))
    unfold insertEntry
    rw [if_neg hne]
    split
    · exact .refl _
    · exact ((ih htl).cons (k, s)).trans (.swap _ _ _)

/-- A record with a new id is added, and nothing else changes. -/
theorem perm_insert {t : LoopTable} {id : LoopId} (h : id ∉ t.ids) (r : LoopRecord) :
    List.Perm (t.insert id r).entries ((id, r) :: t.entries) := perm_insertEntry h

end LoopTable

namespace Acceptance

theorem first?_eq_none {a : Acceptance} {loop : LoopId} :
    a.first? loop = none ↔ loop ∉ a.ids := by
  simp only [first?, Option.map_eq_none_iff, List.find?_eq_none, ids, List.mem_map, not_exists,
    not_and, beq_iff_eq]

/-- A declaration is accepted under an id that is new, or it is left out with an error, and the id
that it names is taken. -/
theorem add_cases (a : Acceptance) (decl : Located LoopDecl) :
    (∃ loop, loopId? decl.value.id.value = some loop ∧ loop ∉ a.ids ∧
        a.add decl = ⟨a.accepted ++ [(loop, decl)], a.problems⟩) ∨
      ∃ p : Located Problem, p.value.level = .error ∧
        (∀ loop, loopId? decl.value.id.value = some loop → loop ∈ a.ids) ∧
        a.add decl = ⟨a.accepted, a.problems ++ [p]⟩ := by
  cases hid : loopId? decl.value.id.value with
  | none =>
    exact .inr ⟨⟨.loopIdOutOfRange decl.value.id.value, decl.value.id.span⟩, rfl, nofun,
      by simp only [add, hid]⟩
  | some loop =>
    cases hfirst : a.first? loop with
    | none =>
      exact .inl ⟨loop, rfl, first?_eq_none.mp hfirst, by simp only [add, hid, hfirst]⟩
    | some first =>
      have htaken : loop ∈ a.ids := by
        by_contra hnew
        rw [first?_eq_none.mpr hnew] at hfirst
        cases hfirst
      refine .inr ⟨⟨.duplicateLoop loop first.span, decl.value.id.span⟩, rfl, ?_,
        by simp only [add, hid, hfirst]⟩
      rintro _ ⟨⟩
      exact htaken

theorem ids_concat (accepted : List (LoopId × Located LoopDecl)) (loop : LoopId)
    (decl : Located LoopDecl) (problems : List (Located Problem)) :
    ids ⟨accepted ++ [(loop, decl)], problems⟩ = accepted.map Prod.fst ++ [loop] := by
  simp [ids]

/-- The accepted loops have different ids. -/
theorem nodup_ids (decls : List (Located LoopDecl)) : (ofLoops decls).ids.Nodup := by
  refine List.foldlRecOn (motive := fun a : Acceptance => a.ids.Nodup) decls _ List.nodup_nil
    fun a h decl _ => ?_
  rcases a.add_cases decl with ⟨loop, -, hnew, hadd⟩ | ⟨p, -, -, hadd⟩
  · rw [hadd, ids_concat]
    refine List.nodup_append.mpr ⟨h, List.pairwise_singleton _ _, ?_⟩
    rintro id hid id' hid' rfl
    exact hnew (List.mem_singleton.mp hid' ▸ hid)
  · rw [hadd]
    exact h

/-- An accepted declaration stands beside its own id. -/
theorem id_of_mem_accepted (decls : List (Located LoopDecl)) :
    ∀ x ∈ (ofLoops decls).accepted, loopId? x.2.value.id.value = some x.1 := by
  refine List.foldlRecOn
    (motive := fun a : Acceptance => ∀ x ∈ a.accepted, loopId? x.2.value.id.value = some x.1)
    decls _ (fun x hx => nomatch hx) fun a h decl _ => ?_
  rcases a.add_cases decl with ⟨loop, hid, -, hadd⟩ | ⟨p, -, -, hadd⟩
  · rw [hadd]
    exact List.forall_mem_append.mpr ⟨h, List.forall_mem_singleton.mpr hid⟩
  · rw [hadd]
    exact h

theorem mem_ids_add {a : Acceptance} {decl : Located LoopDecl} {loop : LoopId} :
    loop ∈ (a.add decl).ids ↔ loop ∈ a.ids ∨ loopId? decl.value.id.value = some loop := by
  rcases a.add_cases decl with ⟨id, hid, -, hadd⟩ | ⟨p, -, htaken, hadd⟩
  · rw [hadd, ids_concat, hid, List.mem_append, List.mem_singleton, Option.some.injEq,
      eq_comm (a := loop), ids]
  · rw [hadd]
    exact ⟨.inl, fun h => h.elim (fun hin => hin) (htaken loop)⟩

/-- The accepted ids are those that are declared and in range. -/
theorem mem_ids_ofLoops {decls : List (Located LoopDecl)} {loop : LoopId} :
    loop ∈ (ofLoops decls).ids ↔ ∃ decl ∈ decls, loopId? decl.value.id.value = some loop := by
  have hfold : ∀ a : Acceptance, loop ∈ (decls.foldl add a).ids ↔
      loop ∈ a.ids ∨ ∃ decl ∈ decls, loopId? decl.value.id.value = some loop := by
    induction decls with
    | nil => simp
    | cons decl decls ih =>
      intro a
      rw [List.foldl_cons, ih, mem_ids_add, or_assoc, List.exists_mem_cons_iff]
  rw [ofLoops, hfold]
  simp [empty, ids]

end Acceptance

namespace Scope

/-- The loop table holds one record for each accepted loop. -/
theorem perm_loopTable (s : Scope) {a : Acceptance} (h : a.ids.Nodup) :
    List.Perm (s.loopTable a).entries
      (a.accepted.map fun x => (x.1, s.loopRecord x.1 x.2.value)) := by
  unfold Acceptance.ids at h
  unfold loopTable
  have hfold : ∀ t : LoopTable, (∀ id ∈ a.accepted.map Prod.fst, id ∉ t.ids) →
      List.Perm (a.accepted.foldl (fun t x => t.insert x.1 (s.loopRecord x.1 x.2.value)) t).entries
        (a.accepted.map (fun x => (x.1, s.loopRecord x.1 x.2.value)) ++ t.entries) := by
    generalize a.accepted = l at h ⊢
    induction l with
    | nil => exact fun t _ => .refl _
    | cons x rest ih =>
      intro t ht
      obtain ⟨hx, hrest⟩ := List.nodup_cons.mp h
      have hinsert := LoopTable.perm_insert (ht x.1 List.mem_cons_self)
        (s.loopRecord x.1 x.2.value)
      refine (ih hrest _ fun id hid hmem => ?_).trans ?_
      · rcases List.mem_cons.mp ((hinsert.map Prod.fst).mem_iff.mp hmem) with rfl | hmem
        · exact hx hid
        · exact ht id (List.mem_cons_of_mem _ hid) hmem
      · exact (hinsert.append_left _).trans List.perm_middle
  simpa [LoopTable.empty] using hfold .empty (by simp [LoopTable.empty, LoopTable.ids])

end Scope

namespace Program

/-- The graph is well formed, its loops are in the table, and each loop port names a port inside the
loop and an axis of it. -/
structure WellFormed (p : Program) : Prop where
  graph : p.graph.WellFormed
  loops : ∀ e ∈ p.graph.expressions, ∀ loop ∈ e.loops, p.loops.contains loop = true
  ports : ∀ x ∈ p.loops.entries, ∀ q ∈ x.2.ports, ∃ e d,
    p.graph.expression q.port.expr = .ok e ∧ x.1 ∈ e.loops ∧
      p.graph.descriptor q.port = .ok d ∧ q.dim < d.shape.length

/-- Loops have ports only where there are expressions. -/
def HasPortsInside (p : Program) : Prop :=
  p.isEmpty = true → ∀ x ∈ p.loops.entries, x.2.ports = []

theorem wellFormed_of_assembled {p : Program} (hgraph : p.graph.Assembled p.loops.ids)
    (hports : ∀ x ∈ p.loops.entries, ∀ q ∈ x.2.ports, q.Fits p.graph x.1) : p.WellFormed where
  graph := hgraph.wellFormed
  loops := by
    intro e he loop hl
    exact LoopTable.contains_iff.mpr (hgraph.loops e he loop hl)
  ports := by
    intro x hx q hq
    obtain ⟨⟨e, -, he, -, hloop⟩, ⟨d, hd, hdim⟩, -, -⟩ := hports x hx q hq
    exact ⟨e, d, by simp [Graph.expression, he], hloop, hd, hdim⟩

end Program

/-- The loop table holds one record for each accepted loop of the kernel. -/
theorem perm_entries_lower (kernel : Kernel) :
    List.Perm (lower kernel).program.loops.entries
      ((Acceptance.ofLoops kernel.loops).accepted.map fun x =>
        (x.1, (Scope.ofExpressions (Acceptance.ofLoops kernel.loops).ids
          kernel.expressions).loopRecord x.1 x.2.value)) :=
  Scope.perm_loopTable _ (Acceptance.nodup_ids kernel.loops)

theorem perm_ids_lower (kernel : Kernel) :
    List.Perm (lower kernel).program.loops.ids (Acceptance.ofLoops kernel.loops).ids := by
  have hperm := (perm_entries_lower kernel).map Prod.fst
  rw [List.map_map] at hperm
  exact hperm

/-- The graph is assembled under the ids of the loop table. -/
theorem assembled_lower (kernel : Kernel) :
    (lower kernel).program.graph.Assembled (lower kernel).program.loops.ids := by
  have hsound := Scope.sound_ofExpressions (Acceptance.ofLoops kernel.loops).ids kernel.expressions
  exact hsound.assembled.mono fun id hid => (perm_ids_lower kernel).mem_iff.mpr hid

/-- The ports in the loop table fit the graph. -/
theorem fits_lower (kernel : Kernel) : ∀ x ∈ (lower kernel).program.loops.entries,
    ∀ q ∈ x.2.ports, q.Fits (lower kernel).program.graph x.1 := by
  intro x hx q hq
  obtain ⟨y, -, rfl⟩ := List.mem_map.mp ((perm_entries_lower kernel).mem_iff.mp hx)
  exact (Scope.sound_ofExpressions _ _).fits_of_record y.1 y.2.value q hq

theorem hasPortsInside_lower (kernel : Kernel) : (lower kernel).program.HasPortsInside := by
  intro hempty x hx
  refine List.eq_nil_iff_forall_not_mem.mpr fun q hq => ?_
  obtain ⟨e, n, he, -⟩ := (fits_lower kernel x hx q hq).named
  rw [List.isEmpty_iff.mp hempty] at he
  cases he

/-- Lowering leaves a well-formed program, whatever it reports. -/
theorem wellFormed_lower (kernel : Kernel) : (lower kernel).program.WellFormed :=
  Program.wellFormed_of_assembled (assembled_lower kernel) (fits_lower kernel)

end TensorLoops
