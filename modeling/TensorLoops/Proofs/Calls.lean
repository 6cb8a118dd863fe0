import Mathlib.Data.List.Nodup
import TensorLoops.Proofs.Settled
import TensorLoops.Proofs.LoweredProgram

namespace TensorLoops

/-- What can be done to a program once it has been lowered. -/
inductive Call where
  | resolve (mode : Mode)
  | resolveLoop (loop : LoopId) (mode : Mode)
  | refresh (loop : LoopId) (workAmount : Extent)
  deriving DecidableEq, Repr

namespace LoopPort

/-- Where the port is and which axis the loop walks. -/
def place (q : LoopPort) : Port × Nat := (q.port, q.dim)

/-- A port fits by its place alone. -/
theorem Fits.of_place {q q' : LoopPort} {g : Graph} {loop : LoopId} (h : q'.Fits g loop)
    (hplace : q'.place = q.place) : q.Fits g loop := by
  obtain ⟨hport, hdim⟩ := Prod.mk.inj hplace
  obtain ⟨hnamed, haxis, hindex, hdim_lt⟩ := h
  rw [hport] at hnamed haxis hindex
  rw [hdim] at haxis hdim_lt
  exact ⟨hnamed, haxis, hindex, hdim_lt⟩

theorem place_refresh (q : LoopPort) (g : Graph) (workAmount : Extent) :
    (q.refresh g workAmount).state.place = q.place := by
  obtain ⟨increment, finalization, hstate⟩ := q.state_refresh g workAmount
  rw [hstate]
  rfl

theorem place_classify (q : LoopPort) (g : Graph) (loop : LoopId) :
    (q.classify g loop).state.place = q.place := by
  unfold classify
  split <;> rfl

theorem place_measure (q : LoopPort) (g : Graph) : (q.measure g).state.place = q.place := by
  unfold measure
  split <;> rfl

theorem place_resolve (q : LoopPort) (g : Graph) (loop : LoopId) (workAmount : Extent)
    (mode : Mode) : (q.resolve g loop workAmount mode).state.place = q.place := by
  unfold resolve
  apply Attempt.andThen_keeps
  · apply Attempt.andThen_keeps
    · cases mode with
      | callTime => rfl
      | full => exact Attempt.andThen_keeps _ (q.place_classify g loop) (place_measure · g)
    · exact fun q => q.place_refresh g workAmount
  · exact fun q => rfl

end LoopPort

namespace LoopRecord

/-- The places of the entries and of the exits. -/
def places (r : LoopRecord) : List (Port × Nat) × List (Port × Nat) :=
  (r.entries.map LoopPort.place, r.exits.map LoopPort.place)

/-- Each port of a record has its place in any record with the same places. -/
theorem mem_ports_of_places {r r' : LoopRecord} (h : r.places = r'.places) {q : LoopPort}
    (hq : q ∈ r.ports) : ∃ q' ∈ r'.ports, q'.place = q.place := by
  obtain ⟨he, hx⟩ := Prod.mk.inj h
  have hmap : r.ports.map LoopPort.place = r'.ports.map LoopPort.place := by
    simp only [ports, List.map_append, he, hx]
  exact List.mem_map.mp (hmap ▸ List.mem_map_of_mem hq)

/-- Each port of the second record stands where one of the first does and is related to it. -/
def Related (R : LoopPort → LoopPort → Prop) (r r' : LoopRecord) : Prop :=
  List.Forall₂ R r.entries r'.entries ∧ List.Forall₂ R r.exits r'.exits

variable {R : LoopPort → LoopPort → Prop}

theorem Related.refl (hrefl : ∀ q, R q q) (r : LoopRecord) : r.Related R r :=
  ⟨List.forall₂_same.mpr fun q _ => hrefl q, List.forall₂_same.mpr fun q _ => hrefl q⟩

/-- Treating the ports one by one relates the record as it relates each port, however far the
treatment comes. -/
theorem related_eachPort (hrefl : ∀ q, R q q) {r : LoopRecord}
    {f : LoopPort → Attempt LoopPort Unit} (hf : ∀ q ∈ r.ports, R q (f q).state) :
    r.Related R (r.eachPort f).state := by
  have hentries := Attempt.forall₂_each hrefl fun q hq => hf q (List.mem_append_left r.exits hq)
  have hexits := Attempt.forall₂_each hrefl fun q hq => hf q (List.mem_append_right r.entries hq)
  unfold eachPort Attempt.andThen
  simp only [Attempt.mapState]
  split
  · exact ⟨hentries, hexits⟩
  · exact ⟨hentries, List.forall₂_same.mpr fun q _ => hrefl q⟩

theorem related_resolve (hrefl : ∀ q, R q q) {r : LoopRecord} {g : Graph} {loop : LoopId}
    {mode : Mode}
    (h : ∀ q ∈ r.ports, ∀ workAmount, R q (q.resolve g loop workAmount mode).state) :
    r.Related R (r.resolve g loop mode).state := by
  unfold resolve
  cases r.resolvedAmount g loop with
  | error e => exact .refl hrefl r
  | ok workAmount =>
    exact related_eachPort (r := { r with workAmount }) hrefl fun q hq => h q hq workAmount

theorem related_refresh (hrefl : ∀ q, R q q) {r : LoopRecord} {g : Graph} {workAmount : Extent}
    (h : ∀ q ∈ r.ports, R q (q.refresh g workAmount).state) (loop : LoopId) :
    r.Related R (r.refresh g loop workAmount).state :=
  related_eachPort (r := { r with workAmount }) hrefl h

end LoopRecord

namespace LoopTable

/-- The ids with the places of the ports. -/
def places (t : LoopTable) : List (LoopId × List (Port × Nat) × List (Port × Nat)) :=
  t.entries.map fun x => (x.1, x.2.places)

theorem ids_of_places {t t' : LoopTable} (h : t.places = t'.places) : t.ids = t'.ids := by
  simpa [places, Function.comp_def, ids] using congrArg (List.map Prod.fst) h

theorem mem_of_places {t t' : LoopTable} (h : t.places = t'.places) {x : LoopId × LoopRecord}
    (hx : x ∈ t.entries) : ∃ y ∈ t'.entries, y.1 = x.1 ∧ x.2.places = y.2.places := by
  have hmem : (x.1, x.2.places) ∈ t'.places := h ▸ List.mem_map_of_mem hx
  obtain ⟨y, hy, heq⟩ := List.mem_map.mp hmem
  obtain ⟨hid, hplaces⟩ := Prod.mk.inj heq
  exact ⟨y, hy, hid, hplaces.symm⟩

theorem eq_of_get? {t : LoopTable} {id : LoopId} {r r' : LoopRecord} (h : t.get? id = some r)
    (hr : (id, r') ∈ t.entries) : r' = r := by
  obtain ⟨x, hx, rfl⟩ := Option.map_eq_some_iff.mp h
  have hid : x.1 = id := by simpa using List.find?_some hx
  have heq := List.inj_on_of_nodup_map t.nodup_ids (List.mem_of_find?_eq_some hx) hr hid
  rw [heq]

/-- The tables have the same loops, and their ports stand in the same places, each related to the
one in its place. -/
def Related (R : LoopPort → LoopPort → Prop) (t t' : LoopTable) : Prop :=
  List.Forall₂ (fun x y => y.1 = x.1 ∧ x.2.Related R y.2) t.entries t'.entries

variable {R : LoopPort → LoopPort → Prop}

theorem Related.refl (hrefl : ∀ q, R q q) (t : LoopTable) : t.Related R t :=
  List.forall₂_same.mpr fun x _ => ⟨rfl, .refl hrefl x.2⟩

theorem Related.trans (htrans : ∀ {q q' q''}, R q q' → R q' q'' → R q q'') {t t' t'' : LoopTable}
    (h : t.Related R t') (h' : t'.Related R t'') : t.Related R t'' := by
  refine forall₂_comp h h' fun x y z hxy hyz => ?_
  obtain ⟨hid, hentries, hexits⟩ := hxy
  obtain ⟨hid', hentries', hexits'⟩ := hyz
  exact ⟨hid'.trans hid, forall₂_comp hentries hentries' fun _ _ _ => htrans,
    forall₂_comp hexits hexits' fun _ _ _ => htrans⟩

theorem related_modify (hrefl : ∀ q, R q q) {t : LoopTable} {id : LoopId} {r r' : LoopRecord}
    (h : t.get? id = some r) (hr : r.Related R r') :
    t.Related R (t.modify id fun _ => r') := by
  refine List.forall₂_map_right_iff.mpr (List.forall₂_same.mpr fun x hx => ?_)
  split
  · rename_i hid
    have hmem : (id, x.2) ∈ t.entries := by
      rw [← hid]
      exact hx
    exact ⟨rfl, eq_of_get? h hmem ▸ hr⟩
  · exact ⟨rfl, .refl hrefl x.2⟩

theorem related_each (hrefl : ∀ q, R q q) {t : LoopTable}
    {f : LoopId → LoopRecord → Attempt LoopRecord Unit}
    (hf : ∀ x ∈ t.entries, x.2.Related R (f x.1 x.2).state) : t.Related R (t.each f).state := by
  refine Attempt.forall₂_each (fun x => ⟨rfl, .refl hrefl x.2⟩) fun x hx => ?_
  exact ⟨rfl, hf x hx⟩

/-- What the relation carries over holds of all ports of the second table. -/
theorem Related.forall_ports {t t' : LoopTable} (h : t.Related R t')
    {P : LoopId → LoopPort → Prop} (hP : ∀ {id q q'}, R q q' → P id q → P id q')
    (ht : ∀ x ∈ t.entries, ∀ q ∈ x.2.ports, P x.1 q) :
    ∀ y ∈ t'.entries, ∀ q ∈ y.2.ports, P y.1 q := by
  intro y hy q' hq'
  obtain ⟨x, hx, hid, hentries, hexits⟩ := forall₂_mem_right h hy
  obtain ⟨q, hq, hqq'⟩ := forall₂_mem_right (LoopRecord.forall₂_ports hentries hexits) hq'
  rw [hid]
  exact hP hqq' (ht x hx q hq)

/-- Ports that keep their places keep the places of the table. -/
theorem Related.places_eq {t t' : LoopTable}
    (h : t.Related (fun q q' => q'.place = q.place) t') : t'.places = t.places := by
  have hmap : ∀ {ps qs : List LoopPort},
      List.Forall₂ (fun q q' : LoopPort => q'.place = q.place) ps qs →
        qs.map LoopPort.place = ps.map LoopPort.place := by
    intro ps qs hpq
    induction hpq with
    | nil => rfl
    | cons hplace _ ih => rw [List.map_cons, List.map_cons, hplace, ih]
  unfold Related at h
  unfold places
  generalize t.entries = xs at h ⊢
  generalize t'.entries = ys at h ⊢
  induction h with
  | nil => rfl
  | cons hxy _ ih =>
    obtain ⟨hid, hentries, hexits⟩ := hxy
    rw [List.map_cons, List.map_cons, ih, hid, LoopRecord.places, LoopRecord.places,
      hmap hentries, hmap hexits]

end LoopTable

namespace Program

def call (p : Program) : Call → Program
  | .resolve mode => (p.resolve mode).state
  | .resolveLoop loop mode => (p.resolveLoop loop mode).state
  | .refresh loop workAmount => (p.refreshLoop loop workAmount).state

/-- The program after some calls, of which any may have failed. -/
def after (p : Program) (calls : List Call) : Program := calls.foldl call p

@[simp] theorem graph_call (p : Program) (c : Call) : (p.call c).graph = p.graph := by
  cases c with
  | resolve mode =>
    simp only [call, resolve]
    split <;> rfl
  | resolveLoop loop mode => exact p.graph_onLoop loop _
  | refresh loop workAmount => exact p.graph_refreshLoop loop workAmount

end Program

/-- What the call makes of a port of `loop` that it comes to. -/
def Call.onPort (c : Call) (g : Graph) (loop : LoopId) (workAmount : Extent) (q : LoopPort) :
    LoopPort :=
  match c with
  | resolve mode | resolveLoop _ mode => (q.resolve g loop workAmount mode).state
  | refresh _ _ => (q.refresh g workAmount).state

namespace Program

variable {R : LoopPort → LoopPort → Prop}

theorem related_onLoop (hrefl : ∀ q, R q q) {p : Program} {loop : LoopId}
    {f : LoopRecord → Attempt LoopRecord Unit}
    (hf : ∀ r, (loop, r) ∈ p.loops.entries → r.Related R (f r).state) :
    p.loops.Related R (p.onLoop loop f).state.loops := by
  cases hget : p.loops.get? loop with
  | none =>
    rw [onLoop_of_missing hget]
    exact .refl hrefl p.loops
  | some r =>
    rw [onLoop_of_get? hget]
    exact LoopTable.related_modify hrefl hget (hf r (LoopTable.mem_of_get? hget))

/-- A call relates the ports of a program as it relates each port that it comes to, whether it
succeeds or not. -/
theorem related_call (hrefl : ∀ q, R q q) {p : Program} {c : Call}
    (h : ∀ x ∈ p.loops.entries, ∀ q ∈ x.2.ports, ∀ workAmount,
      R q (c.onPort p.graph x.1 workAmount q)) : p.loops.Related R (p.call c).loops := by
  cases c with
  | resolve mode =>
    simp only [call, resolve]
    split
    · refine LoopTable.related_each (f := fun loop r => r.resolve p.graph loop mode) hrefl ?_
      exact fun x hx => LoopRecord.related_resolve hrefl (h x hx)
    · exact .refl hrefl p.loops
  | resolveLoop loop mode =>
    exact related_onLoop hrefl fun r hr => LoopRecord.related_resolve hrefl (h _ hr)
  | refresh loop workAmount =>
    exact related_onLoop hrefl fun r hr =>
      LoopRecord.related_refresh hrefl (fun q hq => h _ hr q hq workAmount) loop

theorem call_keeps (p : Program) (c : Call) :
    (p.call c).graph = p.graph ∧ (p.call c).loops.places = p.loops.places := by
  refine ⟨p.graph_call c, LoopTable.Related.places_eq ?_⟩
  refine related_call (R := fun q q' => q'.place = q.place) (fun q => rfl) ?_
  intro x _ q _ workAmount
  cases c with
  | resolve mode => exact q.place_resolve p.graph x.1 workAmount mode
  | resolveLoop loop mode => exact q.place_resolve p.graph x.1 workAmount mode
  | refresh loop amount => exact q.place_refresh p.graph workAmount

/-- Calls keep the graph, the loops and the places of their ports. -/
theorem after_keeps (p : Program) (calls : List Call) :
    (p.after calls).graph = p.graph ∧ (p.after calls).loops.places = p.loops.places := by
  induction calls generalizing p with
  | nil => exact ⟨rfl, rfl⟩
  | cons c calls ih =>
    obtain ⟨hgraph, hplaces⟩ := p.call_keeps c
    obtain ⟨hgraph', hplaces'⟩ := ih (p.call c)
    exact ⟨hgraph'.trans hgraph, hplaces'.trans hplaces⟩

end Program

end TensorLoops
