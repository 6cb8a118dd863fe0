import TensorLoops.Proofs.Calls
import TensorLoops.Proofs.Certified

namespace TensorLoops

namespace Attempt

variable {σ τ : Type}

/-- The attempts end alike, whatever they report on the way. -/
def Alike (a b : Attempt σ Unit) : Prop := a.state = b.state ∧ a.result = b.result

variable {a b : Attempt σ Unit}

theorem Alike.refl (a : Attempt σ Unit) : a.Alike a := ⟨rfl, rfl⟩

theorem alike_after (events : List Event) (a : Attempt σ Unit) : (a.after events).Alike a :=
  ⟨rfl, rfl⟩

theorem Alike.trans {c : Attempt σ Unit} (h : a.Alike b) (h' : b.Alike c) : a.Alike c :=
  ⟨h.1.trans h'.1, h.2.trans h'.2⟩

theorem Alike.symm (h : a.Alike b) : b.Alike a := ⟨h.1.symm, h.2.symm⟩

theorem Alike.mapState (h : a.Alike b) (f : σ → τ) : (a.mapState f).Alike (b.mapState f) :=
  ⟨congrArg f h.1, h.2⟩

theorem Alike.andThen (h : a.Alike b) {f f' : σ → Attempt σ Unit}
    (hf : (f b.state).Alike (f' b.state)) : (a.andThen f).Alike (b.andThen f') := by
  obtain ⟨hs, hr⟩ := h
  unfold Attempt.andThen
  rw [hr, hs]
  cases b.result with
  | error e => exact ⟨rfl, rfl⟩
  | ok u => exact ((alike_after _ _).trans hf).trans (alike_after _ _).symm

/-- Treatments that end alike on each element of a list end alike on the list. -/
theorem alike_each {f f' : σ → Attempt σ Unit} {xs : List σ} (h : ∀ x ∈ xs, (f x).Alike (f' x)) :
    (each f xs).Alike (each f' xs) := by
  induction xs with
  | nil => exact .refl _
  | cons x xs ih =>
    obtain ⟨⟨hs, hr⟩, hrest⟩ := List.forall_mem_cons.mp h
    unfold each
    rw [hr, hs]
    cases (f' x).result with
    | error e => exact ⟨rfl, rfl⟩
    | ok u =>
      have hcons := (ih hrest).mapState ((f' x).state :: ·)
      exact ((alike_after _ _).trans hcons).trans (alike_after _ _).symm

end Attempt

namespace LoopPort

variable {q q' : LoopPort} {g : Graph} {loop : LoopId} {workAmount : Extent}

/-- What does not depend on the number of iterations: the place, whether the pointer moves, and the
size of an element. -/
def topology (q : LoopPort) : (Port × Nat) × Bool × Nat := (q.place, q.incremented, q.dataSize)

def SameTopology (q q' : LoopPort) : Prop := q'.topology = q.topology

theorem SameTopology.refl (q : LoopPort) : q.SameTopology q := rfl

theorem SameTopology.trans {q'' : LoopPort} (h : q.SameTopology q') (h' : q'.SameTopology q'') :
    q.SameTopology q'' := Eq.trans h' h

/-- The port has stayed where it was, and its pointer moves only if it did before. -/
structure Slows (q q' : LoopPort) : Prop where
  place : q'.place = q.place
  moves : q'.incremented = true → q.incremented = true

theorem Slows.refl (q : LoopPort) : q.Slows q := ⟨rfl, fun h => h⟩

theorem Slows.trans {q'' : LoopPort} (h : q.Slows q') (h' : q'.Slows q'') : q.Slows q'' :=
  ⟨h'.place.trans h.place, fun hm => h.moves (h'.moves hm)⟩

theorem SameTopology.slows (h : q.SameTopology q') : q.Slows q' := by
  obtain ⟨hplace, hmoves, -⟩ := by simpa only [SameTopology, topology, Prod.mk.injEq] using h
  exact ⟨hplace, fun hm => hmoves ▸ hm⟩

theorem sameTopology_refresh (q : LoopPort) (g : Graph) (workAmount : Extent) :
    q.SameTopology (q.refresh g workAmount).state := by
  obtain ⟨increment, finalization, hstate⟩ := q.state_refresh g workAmount
  rw [hstate]
  rfl

theorem alike_resolve_callTime (q : LoopPort) (g : Graph) (loop : LoopId) (workAmount : Extent) :
    (q.resolve g loop workAmount .callTime).Alike (q.refresh g workAmount) := by
  simp only [resolve, Attempt.andThen, Attempt.done]
  cases hr : (q.refresh g workAmount).result <;>
    simp [Attempt.Alike, Attempt.after, hr]

theorem slows_classify (q : LoopPort) (g : Graph) (loop : LoopId) :
    q.Slows (q.classify g loop).state := by
  unfold classify
  cases g.pointer loop q.port with
  | error e => exact .refl q
  | ok pointer =>
    refine ⟨rfl, fun hm => ?_⟩
    cases pointer with
    | free => exact hm
    | absent | held => cases hm

theorem slows_measure (q : LoopPort) (g : Graph) : q.Slows (q.measure g).state := by
  unfold measure
  split <;> exact ⟨rfl, fun hm => hm⟩

/-- A run does not set a pointer in motion, wherever it stops. -/
theorem slows_resolve (q : LoopPort) (g : Graph) (loop : LoopId) (workAmount : Extent)
    (mode : Mode) : q.Slows (q.resolve g loop workAmount mode).state := by
  unfold resolve
  refine Attempt.andThen_relates (R := Slows) .trans
    (Attempt.andThen_relates (R := Slows) .trans ?_ ?_) ?_
  · cases mode with
    | callTime => exact .refl q
    | full =>
      exact Attempt.andThen_relates (R := Slows) .trans (q.slows_classify g loop)
        (slows_measure · g)
  · exact fun q => (q.sameTopology_refresh g workAmount).slows
  · exact fun q => .refl q

/-- Classifying and measuring the port would give what it has. -/
structure Decided (q : LoopPort) (g : Graph) (loop : LoopId) : Prop where
  classified : ∃ pointer, g.pointer loop q.port = .ok pointer ∧
    pointer.moves q.incremented = q.incremented
  measured : ∃ d, g.descriptor q.port = .ok d ∧ q.dataSize = d.element.size

theorem Settled.decided (h : q.Settled g loop workAmount) : q.Decided g loop :=
  ⟨h.classified, h.measured⟩

/-- A full run on a decided port does what a run for call time does. -/
theorem Decided.alike (h : q.Decided g loop) (workAmount : Extent) :
    (q.resolve g loop workAmount .callTime).Alike (q.resolve g loop workAmount .full) := by
  obtain ⟨⟨pointer, hp, hm⟩, d, hd, hs⟩ := h
  have hself : { q with incremented := pointer.moves q.incremented
                        dataSize := d.element.size } = q := by
    rw [hm, ← hs]
  have hstructured : (Attempt.done q () []).Alike ((q.classify g loop).andThen (·.measure g)) := by
    simp only [classify, hp, Attempt.andThen, Attempt.done, measure, hd, Attempt.after, hself]
    exact ⟨rfl, rfl⟩
  unfold resolve
  exact (hstructured.andThen (.refl _)).andThen (.refl _)

/-- The port cannot be classified, or it is decided. -/
def Steady (q : LoopPort) (g : Graph) (loop : LoopId) : Prop :=
  (∃ e, g.pointer loop q.port = .error e) ∨ q.Decided g loop

theorem sameTopology_resolve_callTime (q : LoopPort) (g : Graph) (loop : LoopId)
    (workAmount : Extent) : q.SameTopology (q.resolve g loop workAmount .callTime).state := by
  rw [(q.alike_resolve_callTime g loop workAmount).1]
  exact q.sameTopology_refresh g workAmount

theorem Steady.sameTopology_resolve (h : q.Steady g loop) (workAmount : Extent) (mode : Mode) :
    q.SameTopology (q.resolve g loop workAmount mode).state := by
  cases mode with
  | callTime => exact q.sameTopology_resolve_callTime g loop workAmount
  | full =>
    rcases h with ⟨e, he⟩ | hdecided
    · simp [resolve, classify, he, Attempt.andThen, Attempt.fail, SameTopology]
    · rw [← (hdecided.alike workAmount).1]
      exact q.sameTopology_resolve_callTime g loop workAmount

/-- Whether a port is decided depends on its topology alone. -/
theorem SameTopology.decided (h : q.SameTopology q') (hd : q.Decided g loop) :
    q'.Decided g loop := by
  obtain ⟨hplace, hmoves, hsize⟩ := by simpa only [SameTopology, topology, Prod.mk.injEq] using h
  obtain ⟨hport, -⟩ := Prod.mk.inj hplace
  obtain ⟨hclassified, hmeasured⟩ := hd
  rw [← hport, ← hmoves] at hclassified
  rw [← hport, ← hsize] at hmeasured
  exact ⟨hclassified, hmeasured⟩

theorem SameTopology.steady (h : q.SameTopology q') (hs : q.Steady g loop) :
    q'.Steady g loop := by
  refine hs.imp (fun herror => ?_) h.decided
  have hport : q'.port = q.port := (Prod.mk.inj h.slows.place).1
  rwa [hport]

end LoopPort

/-- The call does not classify. -/
def Call.IsRuntime : Call → Prop
  | .resolve mode | .resolveLoop _ mode => mode = .callTime
  | .refresh _ _ => True

namespace LoopRecord

theorem alike_eachPort {r : LoopRecord} {f f' : LoopPort → Attempt LoopPort Unit}
    (h : ∀ q ∈ r.ports, (f q).Alike (f' q)) : (r.eachPort f).Alike (r.eachPort f') := by
  have hentries := Attempt.alike_each fun q hq => h q (List.mem_append_left r.exits hq)
  have hexits := Attempt.alike_each fun q hq => h q (List.mem_append_right r.entries hq)
  exact (hentries.mapState _).andThen (hexits.mapState _)

/-- On a record with decided ports a full run does what a run for call time does. -/
theorem alike_resolve {r : LoopRecord} {g : Graph} {loop : LoopId}
    (h : ∀ q ∈ r.ports, q.Decided g loop) :
    (r.resolve g loop .callTime).Alike (r.resolve g loop .full) := by
  unfold resolve
  cases r.resolvedAmount g loop with
  | error e => exact .refl _
  | ok workAmount =>
    have hports := alike_eachPort (r := { r with workAmount }) fun q hq => (h q hq).alike workAmount
    exact ((Attempt.alike_after _ _).trans hports).trans (Attempt.alike_after _ _).symm

end LoopRecord

namespace LoopTable

theorem alike_each {t : LoopTable} {f k : LoopId → LoopRecord → Attempt LoopRecord Unit}
    (h : ∀ x ∈ t.entries, (f x.1 x.2).Alike (k x.1 x.2)) : (t.each f).Alike (t.each k) := by
  obtain ⟨hs, hr⟩ := Attempt.alike_each fun x hx => (h x hx).mapState (x.1, ·)
  exact ⟨LoopTable.ext hs, hr⟩

end LoopTable

namespace Program

/-- The ports are decided. -/
def Decided (p : Program) : Prop := ∀ x ∈ p.loops.entries, ∀ q ∈ x.2.ports, q.Decided p.graph x.1

/-- No call can change what has been decided about the ports. -/
def Steady (p : Program) : Prop := ∀ x ∈ p.loops.entries, ∀ q ∈ x.2.ports, q.Steady p.graph x.1

variable {p : Program}

/-- No call changes the topology of a steady program. -/
theorem Steady.call (h : p.Steady) (c : Call) :
    p.loops.Related LoopPort.SameTopology (p.call c).loops := by
  refine related_call .refl fun x hx q hq workAmount => ?_
  cases c with
  | resolve mode => exact (h x hx q hq).sameTopology_resolve workAmount mode
  | resolveLoop loop mode => exact (h x hx q hq).sameTopology_resolve workAmount mode
  | refresh loop amount => exact q.sameTopology_refresh p.graph workAmount

theorem related_call_of_isRuntime (p : Program) {c : Call} (hc : c.IsRuntime) :
    p.loops.Related LoopPort.SameTopology (p.call c).loops := by
  refine related_call .refl fun x _ q _ workAmount => ?_
  cases c with
  | resolve mode =>
    cases show mode = .callTime from hc
    exact q.sameTopology_resolve_callTime p.graph x.1 workAmount
  | resolveLoop loop mode =>
    cases show mode = .callTime from hc
    exact q.sameTopology_resolve_callTime p.graph x.1 workAmount
  | refresh loop amount => exact q.sameTopology_refresh p.graph workAmount

theorem slows_call (p : Program) (c : Call) : p.loops.Related LoopPort.Slows (p.call c).loops := by
  refine related_call .refl fun x _ q _ workAmount => ?_
  cases c with
  | resolve mode => exact q.slows_resolve p.graph x.1 workAmount mode
  | resolveLoop loop mode => exact q.slows_resolve p.graph x.1 workAmount mode
  | refresh loop amount => exact (q.sameTopology_refresh p.graph workAmount).slows

/-- What relates each program of a history to the next one relates the first to the last. -/
theorem related_after {R : LoopPort → LoopPort → Prop} (hrefl : ∀ q, R q q)
    (htrans : ∀ {q q' q''}, R q q' → R q' q'' → R q q'') {I : Program → Prop}
    {calls : List Call} (hstep : ∀ c ∈ calls, ∀ p, I p →
      p.loops.Related R (p.call c).loops ∧ I (p.call c)) (hp : I p) :
    p.loops.Related R (p.after calls).loops := by
  induction calls generalizing p with
  | nil => exact .refl hrefl p.loops
  | cons c calls ih =>
    obtain ⟨hrelated, hinv⟩ := hstep c List.mem_cons_self p hp
    exact LoopTable.Related.trans (R := R) htrans hrelated
      (ih (fun c' hc' => hstep c' (List.mem_cons_of_mem _ hc')) hinv)

theorem slows_after (p : Program) (calls : List Call) :
    p.loops.Related LoopPort.Slows (p.after calls).loops :=
  related_after (R := LoopPort.Slows) (I := fun _ => True) .refl .trans
    (fun c _ p _ => ⟨p.slows_call c, trivial⟩) trivial

theorem sameTopology_after_of_isRuntime (p : Program) {calls : List Call}
    (h : ∀ c ∈ calls, c.IsRuntime) :
    p.loops.Related LoopPort.SameTopology (p.after calls).loops :=
  related_after (R := LoopPort.SameTopology) (I := fun _ => True) .refl .trans
    (fun c hc p _ => ⟨p.related_call_of_isRuntime (h c hc), trivial⟩) trivial

theorem Steady.sameTopology_after (h : p.Steady) (calls : List Call) :
    p.loops.Related LoopPort.SameTopology (p.after calls).loops := by
  refine related_after (R := LoopPort.SameTopology) .refl .trans
    (fun c _ p hp => ⟨hp.call c, ?_⟩) h
  have hports := (hp.call c).forall_ports (P := fun loop q => q.Steady p.graph loop)
    LoopPort.SameTopology.steady hp
  intro x hx q hq
  rw [graph_call]
  exact hports x hx q hq

theorem Decided.steady (h : p.Decided) : p.Steady := fun x hx q hq => .inr (h x hx q hq)

/-- Calls leave a decided program decided. -/
theorem Decided.after (h : p.Decided) (calls : List Call) : (p.after calls).Decided := by
  have hports := (h.steady.sameTopology_after calls).forall_ports
    (P := fun loop q => q.Decided p.graph loop) LoopPort.SameTopology.decided h
  intro x hx q hq
  rw [(p.after_keeps calls).1]
  exact hports x hx q hq

/-- A run that has nothing to compute leaves the program alone. -/
theorem resolve_of_not_hasLoops (h : p.hasLoops = false) (mode : Mode) :
    p.resolve mode = .done p false [] := by
  simp [resolve, h]

/-- Where there is nothing to compute no port can be classified. -/
theorem steady_of_not_hasLoops (h : p.hasLoops = false) : p.Steady := by
  intro x hx q _
  have hempty : p.graph.expressions = [] := by
    have hloops : p.loops.isEmpty = false := by
      simp [LoopTable.isEmpty, List.ne_nil_of_mem hx]
    simpa [hasLoops, hloops, isEmpty] using h
  refine .inl ⟨.lookup (.missingExpression q.port.expr), ?_⟩
  simp [Graph.pointer, Graph.expression, hempty]

theorem hasLoops_after (p : Program) (calls : List Call) :
    (p.after calls).hasLoops = p.hasLoops := by
  obtain ⟨hgraph, hplaces⟩ := p.after_keeps calls
  have hempty := congrArg List.isEmpty hplaces
  simp only [LoopTable.places, List.isEmpty_map] at hempty
  simp only [hasLoops, isEmpty, LoopTable.isEmpty, hgraph, hempty]

/-- A full run that succeeds answers whether there was anything to compute, and leaves a decided
program if there was. -/
theorem decided_of_resolve {changed : Bool} (h : (p.resolve .full).result = .ok changed)
    (hl : p.hasLoops = true) : (p.resolve .full).state.Decided := by
  have htrue : (p.resolve .full).result = .ok true := by
    simp only [resolve, hl, if_true, Attempt.withResult, Attempt.mapState] at h ⊢
    cases hr : (p.loops.each fun loop r => r.resolve p.graph loop .full).result with
    | ok u => rfl
    | error e => simp [hr, Except.map] at h
  exact fun x hx q hq => (settled_resolve htrue x hx q hq).decided

/-- A full run that succeeds leaves a steady program. -/
theorem steady_resolve {changed : Bool} (h : (p.resolve .full).result = .ok changed) :
    (p.resolve .full).state.Steady := by
  cases hl : p.hasLoops with
  | false =>
    rw [resolve_of_not_hasLoops hl]
    exact steady_of_not_hasLoops hl
  | true => exact (decided_of_resolve h hl).steady

/-- Calls keep the graph, the loops and the places of their ports, and never set a pointer in
motion. Refreshes and runs for call time leave alone which pointers move and the sizes of elements.
So does any call once a full run has succeeded. -/
theorem after_touches (p : Program) (calls : List Call) :
    (p.after calls).graph = p.graph ∧
      p.loops.Related LoopPort.Slows (p.after calls).loops ∧
      ((∀ c ∈ calls, c.IsRuntime) →
        p.loops.Related LoopPort.SameTopology (p.after calls).loops) ∧
      ((∃ changed, (p.resolve .full).result = .ok changed) →
        (p.resolve .full).state.loops.Related LoopPort.SameTopology
          ((p.resolve .full).state.after calls).loops) := by
  refine ⟨(p.after_keeps calls).1, p.slows_after calls, p.sameTopology_after_of_isRuntime, ?_⟩
  intro hresolved
  obtain ⟨changed, h⟩ := hresolved
  exact (steady_resolve h).sameTopology_after calls

/-- On a decided program a full run and a run for call time end alike. -/
theorem Decided.resolve_eq (h : p.Decided) :
    (p.resolve .callTime).result = (p.resolve .full).result ∧
      (p.resolve .callTime).state = (p.resolve .full).state := by
  obtain ⟨hs, hr⟩ := LoopTable.alike_each (t := p.loops)
    (f := fun loop r => r.resolve p.graph loop .callTime)
    (k := fun loop r => r.resolve p.graph loop .full)
    fun x hx => LoopRecord.alike_resolve (h x hx)
  unfold resolve
  split
  · simp only [Attempt.withResult, Attempt.mapState, hs, hr, and_self]
  · exact ⟨rfl, rfl⟩

/-- Whatever calls follow a full run that succeeded, a run for call time then gives the answer or
the error that a full run gives, and leaves the same loops. -/
theorem resolve_callTime_eq_full (p : Program) (calls : List Call) {changed : Bool}
    (h : (p.resolve .full).result = .ok changed) :
    let q := (p.resolve .full).state.after calls
    (q.resolve .callTime).result = (q.resolve .full).result ∧
      (q.resolve .callTime).state = (q.resolve .full).state := by
  intro q
  cases hl : p.hasLoops with
  | true => exact ((decided_of_resolve h hl).after calls).resolve_eq
  | false =>
    have hq : q.hasLoops = false := by
      rw [hasLoops_after, resolve_of_not_hasLoops hl]
      exact hl
    rw [resolve_of_not_hasLoops hq, resolve_of_not_hasLoops hq]
    exact ⟨rfl, rfl⟩

/-- The first loop has kept its twelve iterations, and the second one merges its extents anew; there
was no loop 7 to refresh. -/
theorem resolve_callTime_eq_full_twoLoops :
    (twoLoops.resolve .full).result = .ok true ∧
      let calls : List Call := [.refresh 0 (.known 12), .refresh 7 .dynamic, .refresh 1 .dynamic]
      let q := (twoLoops.resolve .full).state.after calls
      (q.resolve .callTime).result = (q.resolve .full).result ∧
        (q.resolve .callTime).state = (q.resolve .full).state := by
  have hrun : (twoLoops.resolve .full).result = .ok true := by decide
  exact ⟨hrun, resolve_callTime_eq_full twoLoops _ hrun⟩

end Program

end TensorLoops
