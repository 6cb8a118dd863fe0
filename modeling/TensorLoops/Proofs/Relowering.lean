import TensorLoops.Proofs.ListingKernel

namespace TensorLoops

/-- The port with nothing computed yet. -/
def LoopPort.reset (q : LoopPort) : LoopPort :=
  { LoopPort.moving q.port q.dim with incremented := q.incremented }

namespace LoopRecord

def reset (r : LoopRecord) : LoopRecord :=
  { r with entries := r.entries.map .reset, exits := r.exits.map .reset }

end LoopRecord

namespace LoopTable

def reset (t : LoopTable) : LoopTable where
  entries := t.entries.map fun x => (x.1, x.2.reset)
  ascending := by
    rw [List.map_map]
    exact t.ascending

end LoopTable

namespace Program

/-- The program with no loop parameters computed. -/
def reset (p : Program) : Program := { p with loops := p.loops.reset }

end Program

/-- Each element before the last is related to one before the last. -/
theorem forall₂_concat_left {α β : Type} {R : α → β → Prop} {xs : List α} {x : α} {zs : List β}
    (h : List.Forall₂ R (xs ++ [x]) zs) :
    ∃ ys y, zs = ys ++ [y] ∧ List.Forall₂ R xs ys ∧ R x y := by
  induction xs generalizing zs with
  | nil =>
    obtain ⟨y, ys, hxy, hnil, rfl⟩ := List.forall₂_cons_left_iff.mp h
    cases hnil
    exact ⟨[], y, rfl, .nil, hxy⟩
  | cons a xs ih =>
    obtain ⟨b, bs, hab, hrest, rfl⟩ := List.forall₂_cons_left_iff.mp h
    obtain ⟨ys, y, rfl, hys, hxy⟩ := ih hrest
    exact ⟨b :: ys, y, rfl, .cons hab hys, hxy⟩

/-- What is known of the first elements may be used. -/
theorem forall₂_of_mem {α β : Type} {R S : α → β → Prop} {xs : List α} {ys : List β}
    (h : List.Forall₂ R xs ys) (hS : ∀ x ∈ xs, ∀ y, R x y → S x y) : List.Forall₂ S xs ys := by
  have hmem := (List.forall₂_and_left xs ys).mpr ⟨fun x (hx : x ∈ xs) => hx, h⟩
  exact hmem.imp fun x y hxy => hS x hxy.1 y hxy.2

theorem map_zipWith_of_forall₂ {α β γ δ : Type} {f : α → β → γ} {g : γ → δ} {k : α → δ}
    {xs : List α} {ys : List β} (h : List.Forall₂ (fun x y => g (f x y) = k x) xs ys) :
    (List.zipWith f xs ys).map g = xs.map k := by
  induction h with
  | nil => rfl
  | cons hxy _ ih => rw [List.zipWith_cons_cons, List.map_cons, List.map_cons, hxy, ih]

namespace Scope

variable {s : Scope} {declared : List LoopId}

/-- An operand that is named after its producer and given its tensor resolves. -/
theorem Sound.resolveOperand (h : s.Sound declared) {operand : Located Operand} {slot : Slot}
    {type : Located TensorType}
    (hname : s.graph.producerName? slot.connector = some operand.value.value.value)
    (htype : operand.value.type = some type) (hd : resolveType type = .ok slot.descriptor) :
    s.resolveOperand operand = .ok slot := by
  have hwf := h.assembled.wellFormed
  obtain ⟨c, e, hc, he, hn⟩ := Graph.producerName?_eq_some.mp hname
  obtain ⟨d, hdef, hexpr⟩ := (h.defined _ _).mpr ⟨e, he, hn⟩
  obtain ⟨e', he', produced, hout, hconnector, hsource⟩ := hwf.sources slot.connector c hc
  -- the source of the connector is the expression that has the name
  obtain ⟨i, hi⟩ := List.mem_iff_getElem?.mp he'
  have hid : c.source.expr = i := by rw [hsource, hwf.ids i e' hi]
  rw [hid] at he hexpr
  cases he.symm.trans hi
  refine resolveOperand_eq_ok.mpr ⟨d, produced, hdef, ?_, hconnector.symm, ?_⟩
  · rw [hexpr]
    exact resultSlot?_eq_some.mpr ⟨e, hi, by rw [hout]; rfl⟩
  · rw [htype]
    exact hd

/-- The declaration of the expression that was appended resolves in the graph before. -/
theorem Sound.resolve_declared (h : s.Sound declared) {name : Option String} {r : Resolved}
    (ha : s.graph.Accepts declared name r) {decl : Located ExpressionDecl}
    (hd : decl.value.Declares (s.graph.append name r) (s.graph.appended name r)) :
    s.resolve declared decl = .ok r := by
  refine resolve_eq_ok.mpr ⟨hd.operation, ?_, ?_, ?_, ?_, ?_⟩
  · intro n hn
    apply h.definition?_eq_none.mpr
    have hname : name = some n.value := by rw [← show _ = name from hd.result, hn]; rfl
    exact ha.fresh n.value hname
  · rw [← ha.arity]
    exact hd.operands.length_eq.symm
  · apply resolveOutput_eq_ok.mpr
    have hout := hd.output
    cases ho : r.output with
    | none => exact .inl ⟨ha.result.mp ho, rfl⟩
    | some d =>
      simp only [Graph.appended, ho, Option.toList_some, List.map_cons] at hout
      obtain ⟨type, htype, hresolve⟩ := hout
      refine .inr ⟨fun hz => ?_, type, d, htype, hresolve, rfl⟩
      rw [ha.result.mpr hz] at ho
      cases ho
  · apply List.Forall₂.flip
    refine forall₂_of_mem hd.operands ?_
    rintro slot hs operand ⟨hname, type, htype, hresolve⟩
    obtain ⟨n, hn⟩ := ha.produced slot hs
    rw [Graph.producerName?_append hn, Option.getD_some] at hname
    exact h.resolveOperand (hname ▸ hn) htype hresolve
  · apply List.Forall₂.flip
    refine forall₂_of_mem hd.loops ?_
    intro loop hl number hn
    exact resolveLoop_eq_ok.mpr ⟨hn, ha.loops loop hl⟩

/-- The declarations of the expressions of a graph are lowered to this graph. -/
theorem graph_ofExpressions {g : Graph} (h : g.Assembled declared)
    {decls : List (Located ExpressionDecl)}
    (hd : List.Forall₂ (fun e (decl : Located ExpressionDecl) => decl.value.Declares g e)
      g.expressions decls) :
    (ofExpressions declared decls).graph = g ∧ (ofExpressions declared decls).problems = [] := by
  induction h generalizing decls with
  | empty =>
    cases hd
    exact ⟨rfl, rfl⟩
  | @append g name r rest accepted ih =>
    rw [Graph.expressions_append] at hd
    obtain ⟨before, decl, rfl, hbefore, hdecl⟩ := forall₂_concat_left hd
    -- the operands before are named in the smaller graph as they are in the larger one
    have hsmaller : List.Forall₂ (fun e (decl : Located ExpressionDecl) => decl.value.Declares g e)
        g.expressions before := by
      refine forall₂_of_mem hbefore fun e he decl hde => { hde with operands := ?_ }
      refine forall₂_of_mem hde.operands fun slot hs operand ho => ⟨?_, ho.2⟩
      obtain ⟨n, hn⟩ := rest.produced e he slot hs
      rw [hn, ← ho.1, Graph.producerName?_append hn]
    obtain ⟨hgraph, hproblems⟩ := ih hsmaller
    have hsound := sound_ofExpressions declared before
    have haccepted : (ofExpressions declared before).graph.Accepts declared name r := by
      rw [hgraph]
      exact accepted
    have hresolve : (ofExpressions declared before).resolve declared decl = .ok r := by
      apply hsound.resolve_declared haccepted
      rw [hgraph]
      exact hdecl
    have hadd : ofExpressions declared (before ++ [decl]) =
        (ofExpressions declared before).define decl.value.result r := by
      unfold ofExpressions at hresolve ⊢
      rw [List.foldl_append, List.foldl_cons, List.foldl_nil, add, hresolve]
    rw [hadd]
    refine ⟨?_, hproblems⟩
    have hname : decl.value.result.map Located.value = name := hdecl.result
    simp only [define, hgraph, hname]

/-- A declared port resolves to the port with nothing computed. -/
theorem Sound.resolvePort (h : s.Sound declared) {loop : LoopId} {q : LoopPort}
    (hq : q.Fits s.graph loop) {kind : PortKind} {decl : Located PortDecl}
    (hd : decl.value.Declares s.graph kind q) : s.resolvePort loop decl = .ok q.reset := by
  obtain ⟨e, n, he, hn, hloop⟩ := hq.named
  obtain ⟨d, hdesc, hdim⟩ := hq.axis
  obtain ⟨definition, hdef, hexpr⟩ := (h.defined n q.port.expr).mpr ⟨e, he, hn⟩
  have hname : decl.value.value.value = n := by rw [hd.value]; simp [Graph.nameOf, he, hn]
  have hport : q.reset = portOf decl.value definition.expr := by
    simp [portOf, LoopPort.reset, LoopPort.moving, hexpr, hd.direction, hd.index, hd.dim, hd.fixed]
  refine resolvePort_eq_ok.mpr ⟨definition, d, hname ▸ hdef, hport, hdesc, ?_, hdim⟩
  rw [hexpr]
  exact encloses_eq_true.mpr ⟨e, he, hloop⟩

variable {loop : LoopId} {kind : PortKind} {qs : List LoopPort} {decls : List (Located PortDecl)}

/-- The declared ports of one kind are those of the record. -/
theorem Sound.portsOfKind (h : s.Sound declared) (hqs : ∀ q ∈ qs, q.Fits s.graph loop)
    (hd : List.Forall₂ (fun q (decl : Located PortDecl) => decl.value.Declares s.graph kind q)
      qs decls) (kind' : PortKind) :
    s.portsOfKind loop kind' decls = if kind = kind' then qs.map .reset else [] := by
  unfold Scope.portsOfKind Checked.values
  induction hd with
  | nil => simp
  | @cons q decl qs decls hdecl _ ih =>
    have hrest := ih fun q' hq' => hqs q' (List.mem_cons_of_mem _ hq')
    have hport := h.resolvePort (hqs q List.mem_cons_self) hdecl
    rw [List.filter_cons, hdecl.kind]
    by_cases hk : kind = kind'
    · rw [if_pos hk] at hrest ⊢
      rw [if_pos (beq_iff_eq.mpr hk), List.map_cons, List.filterMap_cons, hport, hrest]
      rfl
    · rw [if_neg hk] at hrest ⊢
      rw [if_neg (by simpa using hk)]
      exact hrest

theorem Sound.problems_ports (h : s.Sound declared) (hqs : ∀ q ∈ qs, q.Fits s.graph loop)
    (hd : List.Forall₂ (fun q (decl : Located PortDecl) => decl.value.Declares s.graph kind q)
      qs decls) : decls.flatMap (fun port => (s.resolvePort loop port).problems) = [] := by
  induction hd with
  | nil => rfl
  | @cons q decl qs decls hdecl _ ih =>
    rw [List.flatMap_cons, ih fun q' hq' => hqs q' (List.mem_cons_of_mem _ hq'),
      h.resolvePort (hqs q List.mem_cons_self) hdecl]
    rfl

theorem portsOfKind_append (s : Scope) (loop : LoopId) (kind : PortKind)
    (ds ds' : List (Located PortDecl)) :
    s.portsOfKind loop kind (ds ++ ds') =
      s.portsOfKind loop kind ds ++ s.portsOfKind loop kind ds' := by
  simp [Scope.portsOfKind, Checked.values]

/-- A declared loop has the record with nothing computed, and no errors. -/
theorem Sound.loopRecord (h : s.Sound declared) {r : LoopRecord} {decl : Located LoopDecl}
    (hr : ∀ q ∈ r.ports, q.Fits s.graph loop) (hd : decl.value.Declares s.graph loop r) :
    s.loopRecord loop decl.value = r.reset ∧
      Problem.anyError (s.loopProblems loop decl) = false := by
  obtain ⟨entries, exits, hports, he, hx⟩ := hd.ports
  have hr_entries := fun q hq => hr q (List.mem_append_left _ hq)
  have hr_exits := fun q hq => hr q (List.mem_append_right _ hq)
  constructor
  · unfold Scope.loopRecord
    rw [hd.workAmount, hports, portsOfKind_append, portsOfKind_append,
      h.portsOfKind hr_entries he, h.portsOfKind hr_entries he, h.portsOfKind hr_exits hx,
      h.portsOfKind hr_exits hx]
    simp [LoopRecord.reset]
  · unfold loopProblems
    rw [hports, List.flatMap_append, h.problems_ports hr_entries he, h.problems_ports hr_exits hx]
    by_cases hempty : (entries ++ exits).isEmpty <;> simp [hempty, Problem.anyError, Problem.level]

end Scope

namespace Acceptance

/-- Loops with different ids are all accepted. -/
theorem ofLoops_declared {entries : List (LoopId × LoopRecord)} {decls : List (Located LoopDecl)}
    (hd : List.Forall₂ (fun x (decl : Located LoopDecl) => decl.value.id.value.toNat = x.1.toNat)
      entries decls) (hn : (entries.map Prod.fst).Nodup) :
    ofLoops decls = ⟨List.zipWith (fun x decl => (x.1, decl)) entries decls, []⟩ := by
  have hfold : ∀ a : Acceptance, (∀ x ∈ entries, x.1 ∉ a.ids) → decls.foldl add a =
      ⟨a.accepted ++ List.zipWith (fun x decl => (x.1, decl)) entries decls, a.problems⟩ := by
    induction hd with
    | nil => simp
    | @cons x decl entries decls hid _ ih =>
      intro a ha
      obtain ⟨hx, hrest⟩ := List.nodup_cons.mp hn
      have hadd : a.add decl = ⟨a.accepted ++ [(x.1, decl)], a.problems⟩ := by
        have hfirst := first?_eq_none.mpr (ha x List.mem_cons_self)
        simp only [add, loopId?_eq_some.mpr hid, hfirst]
      rw [List.foldl_cons, hadd, ih hrest]
      · simp
      · intro y hy
        simp only [ids, List.map_append, List.mem_append, not_or]
        refine ⟨ha y (List.mem_cons_of_mem _ hy), fun hm => ?_⟩
        have hyx : y.1 = x.1 := by simpa using hm
        exact hx (hyx ▸ List.mem_map_of_mem hy)
  exact hfold .empty (by simp [empty, ids])

end Acceptance

namespace LoopTable

/-- A table is known by its records, in whatever order they come. -/
theorem eq_of_perm {t t' : LoopTable} (h : List.Perm t.entries t'.entries) : t = t' := by
  have hsorted : t.entries.Pairwise (fun x y => x.1 < y.1) := List.pairwise_map.mp t.ascending
  have hsorted' : t'.entries.Pairwise (fun x y => x.1 < y.1) := List.pairwise_map.mp t'.ascending
  apply LoopTable.ext
  refine h.eq_of_pairwise (fun x y _ _ hxy hyx => ?_) hsorted hsorted'
  exact absurd (UInt32.lt_trans hxy hyx) (UInt32.lt_irrefl _)

end LoopTable

theorem Problem.anyError_flatMap {α : Type} (f : α → List (Located Problem)) (xs : List α) :
    anyError (xs.flatMap f) = (xs.map fun x => anyError (f x)).any id := by
  simp [anyError, List.any_flatMap, List.any_map]

/-- Declaring a program and lowering the declarations gives it back with nothing computed, and
without an error. -/
theorem lower_declared {p : Program} (h : p.Listable) {kernel : Kernel} (hk : kernel.Declares p) :
    (lower kernel).program = p.reset ∧ (lower kernel).hasErrors = false := by
  obtain ⟨hgraph, hproblems⟩ := Scope.graph_ofExpressions h.assembled hk.expressions
  have hsound := Scope.sound_ofExpressions p.loops.ids kernel.expressions
  have hloops := Acceptance.ofLoops_declared (hk.loops.imp fun _ _ hd => hd.id) p.loops.nodup_ids
  have hids : (Acceptance.ofLoops kernel.loops).ids = p.loops.ids := by
    rw [hloops]
    exact map_zipWith_of_forall₂ (hk.loops.imp fun _ _ _ => rfl)
  have hnodup := Acceptance.nodup_ids kernel.loops
  have hrecords : List.Forall₂ (fun x (decl : Located LoopDecl) =>
      (Scope.ofExpressions p.loops.ids kernel.expressions).loopRecord x.1 decl.value = x.2.reset ∧
        Problem.anyError ((Scope.ofExpressions p.loops.ids kernel.expressions).loopProblems x.1
          decl) = false) p.loops.entries kernel.loops := by
    refine forall₂_of_mem hk.loops fun x hx decl hd => hsound.loopRecord ?_ ?_
    · rw [hgraph]
      exact h.fits x hx
    · rw [hgraph]
      exact hd
  unfold lower Lowered.hasErrors
  dsimp only
  rw [hids]
  generalize Scope.ofExpressions p.loops.ids kernel.expressions = s at *
  constructor
  · have htable : s.loopTable (Acceptance.ofLoops kernel.loops) = p.loops.reset := by
      apply LoopTable.eq_of_perm
      refine (s.perm_loopTable hnodup).trans (List.Perm.of_eq ?_)
      rw [hloops]
      exact map_zipWith_of_forall₂ (hrecords.imp fun x decl hd => by rw [hd.1])
    simp only [hgraph, htable, Program.reset]
  · have hnone := map_zipWith_of_forall₂ (f := fun x decl => (x.1, decl)) (k := fun _ => false)
      (g := fun y => Problem.anyError (s.loopProblems y.1 y.2))
      (hrecords.imp fun x decl hd => hd.2)
    have hany := Problem.anyError_flatMap
      (fun y : LoopId × Located LoopDecl => s.loopProblems y.1 y.2)
      (List.zipWith (fun x decl => (x.1, decl)) p.loops.entries kernel.loops)
    rw [hnone] at hany
    rw [hproblems, hloops, List.nil_append, List.nil_append]
    exact hany.trans (by simp)

end TensorLoops
