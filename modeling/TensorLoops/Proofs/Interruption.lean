import TensorLoops.Proofs.Calls
import TensorLoops.Proofs.PortOrder

namespace TensorLoops

namespace Attempt

variable {σ : Type}

/-- The attempt on `x` is the first one in the list to fail. -/
structure FailsAt (f : σ → Attempt σ Unit) (xs before : List σ) (x : σ) (rest : List σ)
    (e : LoopError) : Prop where
  split : xs = before ++ x :: rest
  succeeds : ∀ y ∈ before, (f y).result = .ok ()
  fails : (f x).result = .error e

variable {f : σ → Attempt σ Unit} {xs before rest : List σ} {x : σ} {e : LoopError}

theorem reaches_each_map (h : ∀ x ∈ xs, (f x).result = .ok ()) :
    (each f xs).Reaches (xs.map fun x => (f x).state) :=
  reaches_each.mpr (List.forall₂_map_right_iff.mpr
    (List.forall₂_same.mpr fun x hx => reaches_state (h x hx)))

/-- The elements before the first failure are treated and those after it are left alone. -/
theorem FailsAt.each (h : FailsAt f xs before x rest e) :
    (each f xs).result = .error e ∧
      (each f xs).state = before.map (fun y => (f y).state) ++ (f x).state :: rest := by
  obtain ⟨rfl, hbefore, hx⟩ := h
  induction before with
  | nil => simp [Attempt.each, hx]
  | cons y before ih =>
    obtain ⟨hy, hbefore⟩ := List.forall_mem_cons.mp hbefore
    obtain ⟨hresult, hstate⟩ := ih hbefore
    simp [Attempt.each, hy, after, mapState, hresult, hstate]

/-- Either no attempt fails, or there is a first one that does. -/
theorem all_ok_or_failsAt (f : σ → Attempt σ Unit) (xs : List σ) :
    (∀ x ∈ xs, (f x).result = .ok ()) ∨ ∃ before x rest e, FailsAt f xs before x rest e := by
  induction xs with
  | nil => exact .inl nofun
  | cons x xs ih =>
    cases hx : (f x).result with
    | error e => exact .inr ⟨[], x, xs, e, rfl, nofun, hx⟩
    | ok u =>
      rcases ih with hall | ⟨before, y, rest, e, hfails⟩
      · exact .inl (List.forall_mem_cons.mpr ⟨hx, hall⟩)
      · refine .inr ⟨x :: before, y, rest, e, ?_, ?_, hfails.fails⟩
        · rw [hfails.split, List.cons_append]
        · exact List.forall_mem_cons.mpr ⟨hx, hfails.succeeds⟩

/-- A list of attempts fails as the first one to fail does. -/
theorem exists_failsAt (h : (each f xs).result = .error e) :
    ∃ before x rest, FailsAt f xs before x rest e := by
  rcases all_ok_or_failsAt f xs with hall | ⟨before, x, rest, e', hfails⟩
  · rw [(reaches_each_map hall).1] at h
    cases h
  · rw [hfails.each.1] at h
    cases h
    exact ⟨before, x, rest, hfails⟩

/-- A list that is treated with success is followed by the next one. -/
theorem each_append_of_ok (h : (each f xs).result = .ok ()) (ys : List σ) :
    (each f (xs ++ ys)).result = (each f ys).result ∧
      (each f (xs ++ ys)).state = (each f xs).state ++ (each f ys).state := by
  induction xs with
  | nil => exact ⟨rfl, rfl⟩
  | cons x xs ih =>
    unfold each at h
    cases hx : (f x).result with
    | error e => simp [hx] at h
    | ok u =>
      rw [hx] at h
      obtain ⟨hresult, hstate⟩ := ih h
      simp [each, hx, after, mapState, hresult, hstate]

/-- After a list that fails the next one is not touched. -/
theorem each_append_of_error (h : (each f xs).result = .error e) (ys : List σ) :
    (each f (xs ++ ys)).result = .error e ∧
      (each f (xs ++ ys)).state = (each f xs).state ++ ys := by
  obtain ⟨before, x, rest, hfails⟩ := exists_failsAt h
  have hlonger : FailsAt f (xs ++ ys) before x (rest ++ ys) e :=
    ⟨by simp [hfails.split], hfails.succeeds, hfails.fails⟩
  obtain ⟨hresult, hstate⟩ := hlonger.each
  exact ⟨hresult, by simp [hstate, hfails.each.2]⟩

end Attempt

namespace LoopRecord

variable {r : LoopRecord} {g : Graph} {loop : LoopId} {mode : Mode} {e : LoopError}

/-- The entries and the exits are treated as one list. -/
theorem ports_eachPort (r : LoopRecord) (f : LoopPort → Attempt LoopPort Unit) :
    (r.eachPort f).result = (Attempt.each f r.ports).result ∧
      (r.eachPort f).state.ports = (Attempt.each f r.ports).state := by
  unfold eachPort Attempt.andThen ports
  cases hentries : (Attempt.each f r.entries).result with
  | ok u =>
    obtain ⟨hresult, hstate⟩ := Attempt.each_append_of_ok hentries r.exits
    simp [Attempt.mapState, Attempt.after, hentries, hresult, hstate]
  | error e =>
    obtain ⟨hresult, hstate⟩ := Attempt.each_append_of_error hentries r.exits
    simp [Attempt.mapState, hentries, hresult, hstate]

theorem length_entries_eachPort (r : LoopRecord) (f : LoopPort → Attempt LoopPort Unit) :
    (r.eachPort f).state.entries.length = r.entries.length :=
  (related_eachPort (R := fun _ _ => True) (fun _ => trivial)
    fun _ _ => trivial).1.length_eq.symm

theorem workAmount_eachPort (r : LoopRecord) (f : LoopPort → Attempt LoopPort Unit) :
    (r.eachPort f).state.workAmount = r.workAmount := by
  unfold eachPort Attempt.andThen
  simp only [Attempt.mapState]
  split <;> rfl

/-- What a run that fails with `e` leaves of a record. Without a number of iterations nothing has
changed. With one, that is set, the ports before one that fails are resolved, the one that fails has
stayed in its place, and those behind it are as they were. -/
def StopsAs (r r' : LoopRecord) (g : Graph) (loop : LoopId) (mode : Mode) (e : LoopError) : Prop :=
  r.resolvedAmount g loop = .error e ∧ r' = r ∨
    ∃ workAmount before q q' rest,
      r.resolvedAmount g loop = .ok workAmount ∧ r'.workAmount = workAmount ∧
      Attempt.FailsAt (·.resolve g loop workAmount mode) r.ports before q rest e ∧
      r'.ports = before.map (fun p => (p.resolve g loop workAmount mode).state) ++ q' :: rest ∧
      r'.entries.length = r.entries.length ∧ q'.place = q.place

theorem stopsAs_resolve (h : (r.resolve g loop mode).result = .error e) :
    r.StopsAs (r.resolve g loop mode).state g loop mode e := by
  unfold resolve at h ⊢
  cases hamount : r.resolvedAmount g loop with
  | error err =>
    rw [hamount] at h
    cases h
    exact .inl ⟨hamount, rfl⟩
  | ok workAmount =>
    rw [hamount] at h
    let f : LoopPort → Attempt LoopPort Unit := fun p => p.resolve g loop workAmount mode
    obtain ⟨hresult, hports⟩ := ports_eachPort { r with workAmount } f
    have hlength := length_entries_eachPort { r with workAmount } f
    obtain ⟨before, q, rest, hfails⟩ := Attempt.exists_failsAt (hresult.symm.trans h)
    exact .inr ⟨workAmount, before, q, (f q).state, rest, hamount, workAmount_eachPort _ f, hfails,
      hports.trans hfails.each.2, hlength, q.place_resolve g loop workAmount mode⟩

end LoopRecord

namespace LoopTable

theorem get?_eq_some {t : LoopTable} {id : LoopId} {r : LoopRecord} :
    t.get? id = some r ↔ (id, r) ∈ t.entries := by
  refine ⟨mem_of_get?, fun hr => ?_⟩
  cases hget : t.get? id with
  | none => exact absurd (List.mem_map_of_mem hr) (get?_eq_none.mp hget)
  | some r' => rw [eq_of_get? hget hr]

/-- The records in front of one have smaller ids and those behind it larger ones. -/
theorem ids_of_split {t : LoopTable} {before after : List (LoopId × LoopRecord)}
    {x : LoopId × LoopRecord} (h : t.entries = before ++ x :: after) :
    (∀ y ∈ before, y.1 < x.1) ∧ ∀ y ∈ after, x.1 < y.1 := by
  have hasc := t.ascending
  rw [h, List.map_append, List.map_cons, List.pairwise_append, List.pairwise_cons] at hasc
  obtain ⟨-, ⟨hafter, -⟩, hbefore⟩ := hasc
  exact ⟨fun y hy => hbefore _ (List.mem_map_of_mem hy) _ List.mem_cons_self,
    fun y hy => hafter _ (List.mem_map_of_mem hy)⟩

/-- Look-ups in a table whose records up to one have been treated. -/
theorem get?_of_split {t t' : LoopTable} {before after : List (LoopId × LoopRecord)} {loop : LoopId}
    {r r' : LoopRecord} {f : LoopId → LoopRecord → LoopRecord}
    (h : t.entries = before ++ (loop, r) :: after)
    (h' : t'.entries = before.map (fun x => (x.1, f x.1 x.2)) ++ (loop, r') :: after) :
    (∀ other < loop, t'.get? other = (t.get? other).map (f other)) ∧
      t'.get? loop = some r' ∧ ∀ other, loop < other → t'.get? other = t.get? other := by
  obtain ⟨hbefore, hafter⟩ := ids_of_split h
  have hmap : ∀ other, (before.map fun x => (x.1, f x.1 x.2)).find? (·.1 == other) =
      (before.find? (·.1 == other)).map fun x => (x.1, f x.1 x.2) := by
    intro other
    rw [List.find?_map]
    rfl
  refine ⟨fun other hlt => ?_, get?_eq_some.mpr (by simp [h']), fun other hlt => ?_⟩
  · have hrest : ∀ s, ((loop, s) :: after).find? (·.1 == other) = none := by
      intro s
      simp only [List.find?_eq_none, List.forall_mem_cons, beq_iff_eq]
      exact ⟨(UInt32.ne_of_lt hlt).symm,
        fun y hy => (UInt32.ne_of_lt (UInt32.lt_trans hlt (hafter y hy))).symm⟩
    rw [get?, get?, h, h', List.find?_append, List.find?_append, hmap, hrest, hrest]
    cases hfind : before.find? (·.1 == other) with
    | none => rfl
    | some x =>
      have hid : x.1 = other := by simpa using List.find?_some hfind
      simp [← hid]
  · have hfirst : before.find? (·.1 == other) = none := by
      simp only [List.find?_eq_none, beq_iff_eq]
      exact fun y hy => UInt32.ne_of_lt (UInt32.lt_trans (hbefore y hy) hlt)
    have hne : (loop == other) = false := by simpa using UInt32.ne_of_lt hlt
    simp [get?, h, h', List.find?_append, hmap, hfirst, hne]

end LoopTable

namespace Program

variable {p : Program} {mode : Mode} {loop : LoopId} {r : LoopRecord} {e : LoopError}

/-- Treated alone, the loop is resolved. -/
def ResolvesAlone (p : Program) (mode : Mode) (loop : LoopId) : Prop :=
  ∀ r, p.loops.get? loop = some r → (r.resolve p.graph loop mode).result = .ok ()

/-- Of the loops that fail when they are treated alone, this one has the smallest id. -/
structure FailsFirst (p : Program) (mode : Mode) (loop : LoopId) (r : LoopRecord) (e : LoopError) :
    Prop where
  record : p.loops.get? loop = some r
  fails : (r.resolve p.graph loop mode).result = .error e
  least : ∀ other < loop, p.ResolvesAlone mode other

/-- The record that is left of a loop when it is treated alone. -/
def alone? (p : Program) (mode : Mode) (loop : LoopId) : Option LoopRecord :=
  (p.loops.get? loop).map fun r => (r.resolve p.graph loop mode).state

/-- What a run that has something to compute makes of a program: it treats the loops one by one. -/
structure OneByOne (p : Program) (mode : Mode) : Prop where
  graph : (p.resolve mode).state.graph = p.graph
  succeeds : (p.resolve mode).result = .ok true ↔ ∀ loop, p.ResolvesAlone mode loop
  treated : (p.resolve mode).result = .ok true →
    ∀ loop, (p.resolve mode).state.loops.get? loop = p.alone? mode loop
  fails : (p.resolve mode).result ≠ .ok true → ∃ loop r e, p.FailsFirst mode loop r e
  stopped : ∀ loop r e, p.FailsFirst mode loop r e →
    (p.resolve mode).result = .error e ∧
      (∀ other < loop, (p.resolve mode).state.loops.get? other = p.alone? mode other) ∧
      (∀ other, loop < other → (p.resolve mode).state.loops.get? other = p.loops.get? other) ∧
      ∃ r', (p.resolve mode).state.loops.get? loop = some r' ∧ r.StopsAs r' p.graph loop mode e

/-- Treats the record of a loop alone. -/
def treat (p : Program) (mode : Mode) (x : LoopId × LoopRecord) :
    Attempt (LoopId × LoopRecord) Unit :=
  (x.2.resolve p.graph x.1 mode).mapState (x.1, ·)

theorem resolve_eq_each (h : p.hasLoops = true) (mode : Mode) :
    (p.resolve mode).result =
        (Attempt.each (p.treat mode) p.loops.entries).result.map (fun _ => true) ∧
      (p.resolve mode).state.loops.entries =
        (Attempt.each (p.treat mode) p.loops.entries).state := by
  rw [resolve, if_pos h]
  exact ⟨rfl, rfl⟩

theorem resolvesAlone_iff : (∀ loop, p.ResolvesAlone mode loop) ↔
    ∀ x ∈ p.loops.entries, (p.treat mode x).result = .ok () :=
  ⟨fun h x hx => h x.1 x.2 (LoopTable.get?_eq_some.mpr hx),
    fun h loop r hr => h (loop, r) (LoopTable.get?_eq_some.mp hr)⟩

/-- The loop that fails first parts the table into those before it, which succeed, and the rest. -/
theorem FailsFirst.failsAt (h : p.FailsFirst mode loop r e) :
    ∃ before after, Attempt.FailsAt (p.treat mode) p.loops.entries before (loop, r) after e := by
  obtain ⟨before, after, hsplit⟩ := List.append_of_mem (LoopTable.get?_eq_some.mp h.record)
  refine ⟨before, after, hsplit, fun y hy => ?_, h.fails⟩
  have hmem : y ∈ p.loops.entries := hsplit ▸ List.mem_append_left _ hy
  exact h.least y.1 ((LoopTable.ids_of_split hsplit).1 y hy) y.2 (LoopTable.get?_eq_some.mpr hmem)

theorem failsFirst_of_failsAt {before after : List (LoopId × LoopRecord)}
    (h : Attempt.FailsAt (p.treat mode) p.loops.entries before (loop, r) after e) :
    p.FailsFirst mode loop r e where
  record := LoopTable.get?_eq_some.mpr (by simp [h.split])
  fails := h.fails
  least := by
    intro other hlt s hs
    have hmem := LoopTable.get?_eq_some.mp hs
    rw [h.split] at hmem
    rcases List.mem_append.mp hmem with hbefore | hrest
    · exact h.succeeds _ hbefore
    · rcases List.mem_cons.mp hrest with heq | hafter
      · cases heq
        exact absurd hlt (UInt32.lt_irrefl _)
      · have hgt := (LoopTable.ids_of_split h.split).2 _ hafter
        exact absurd (UInt32.lt_trans hlt hgt) (UInt32.lt_irrefl _)

/-- What a run leaves when all loops succeed. -/
theorem treated_of_resolvesAlone (hl : p.hasLoops = true)
    (h : ∀ loop, p.ResolvesAlone mode loop) :
    (p.resolve mode).result = .ok true ∧
      ∀ loop, (p.resolve mode).state.loops.get? loop = p.alone? mode loop := by
  obtain ⟨hrun, hentries⟩ := resolve_eq_each hl mode
  obtain ⟨hresult, hstate⟩ := Attempt.reaches_each_map (resolvesAlone_iff.mp h)
  refine ⟨by rw [hrun, hresult]; rfl, fun loop => Option.ext fun r => ?_⟩
  rw [LoopTable.get?_eq_some, hentries, hstate, alone?, Option.map_eq_some_iff]
  simp only [LoopTable.get?_eq_some]
  constructor
  · intro hmem
    obtain ⟨⟨id, s⟩, hs, heq⟩ := List.mem_map.mp hmem
    cases heq
    exact ⟨s, hs, rfl⟩
  · intro hmem
    obtain ⟨s, hs, rfl⟩ := hmem
    exact List.mem_map_of_mem hs

/-- What a run leaves when a loop fails. -/
theorem FailsFirst.stopped (h : p.FailsFirst mode loop r e) (hl : p.hasLoops = true) :
    (p.resolve mode).result = .error e ∧
      (∀ other < loop, (p.resolve mode).state.loops.get? other = p.alone? mode other) ∧
      (∀ other, loop < other → (p.resolve mode).state.loops.get? other = p.loops.get? other) ∧
      ∃ r', (p.resolve mode).state.loops.get? loop = some r' ∧
        r.StopsAs r' p.graph loop mode e := by
  obtain ⟨before, after, hfails⟩ := h.failsAt
  obtain ⟨hresult, hstate⟩ := hfails.each
  obtain ⟨hrun, hentries⟩ := resolve_eq_each hl mode
  have hleft := hentries.trans hstate
  obtain ⟨hbelow, hat, habove⟩ := LoopTable.get?_of_split
    (f := fun loop r => (r.resolve p.graph loop mode).state) hfails.split hleft
  exact ⟨by rw [hrun, hresult]; rfl, hbelow, habove, _, hat, LoopRecord.stopsAs_resolve h.fails⟩

/-- Either every loop succeeds when it is treated alone, or one of them is the first to fail. -/
theorem resolvesAlone_or_failsFirst (p : Program) (mode : Mode) :
    (∀ loop, p.ResolvesAlone mode loop) ∨ ∃ loop r e, p.FailsFirst mode loop r e := by
  rcases Attempt.all_ok_or_failsAt (p.treat mode) p.loops.entries with
    hall | ⟨before, x, after, e, hfails⟩
  · exact .inl (resolvesAlone_iff.mpr hall)
  · exact .inr ⟨x.1, x.2, e, failsFirst_of_failsAt hfails⟩

/-- A run that has something to compute treats the loops one by one, up to the first that fails. -/
theorem resolve_oneByOne (h : p.hasLoops = true) (mode : Mode) : p.OneByOne mode := by
  have hfailed : ∀ loop r e, p.FailsFirst mode loop r e → (p.resolve mode).result ≠ .ok true := by
    intro loop r e hfirst hok
    rw [(hfirst.stopped h).1] at hok
    cases hok
  have hsucceeds : (p.resolve mode).result = .ok true → ∀ loop, p.ResolvesAlone mode loop := by
    intro hok
    refine (p.resolvesAlone_or_failsFirst mode).resolve_right fun hfirst => ?_
    obtain ⟨loop, r, e, hfirst⟩ := hfirst
    exact hfailed loop r e hfirst hok
  exact {
    graph := p.graph_resolve mode
    succeeds := ⟨hsucceeds, fun hall => (treated_of_resolvesAlone h hall).1⟩
    treated := fun hok => (treated_of_resolvesAlone h (hsucceeds hok)).2
    fails := fun hnot => (p.resolvesAlone_or_failsFirst mode).resolve_left fun hall =>
      hnot (treated_of_resolvesAlone h hall).1
    stopped := fun _ _ _ hfirst => hfirst.stopped h }

/-- Three loops of which the middle one has a port of an expression that does not exist, between two
ports that can be resolved. -/
def brokenMiddle : Program :=
  ⟨threeLoads, ((LoopTable.empty.insert 0 (loopOver .dynamic [3])).insert 1
    (loopOver (.known 2) [3, 9, 4])).insert 2 (loopOver .dynamic [5])⟩

/-- The first loop is resolved, the last one is not touched, and of the three ports in between only
the first is resolved. -/
theorem resolve_oneByOne_brokenMiddle :
    brokenMiddle.hasLoops = true ∧ brokenMiddle.OneByOne .full ∧
      (brokenMiddle.resolve .full).result = .error (.lookup (.missingExpression 9)) ∧
      (brokenMiddle.resolve .full).state.loops.get? 0 = brokenMiddle.alone? .full 0 ∧
      (brokenMiddle.resolve .full).state.loops.get? 2 = brokenMiddle.loops.get? 2 ∧
      ((brokenMiddle.resolve .full).state.loops.get? 1).map (·.ports.map LoopPort.dataSize) =
        some [4, 0, 0] := by
  have hone := resolve_oneByOne (p := brokenMiddle) (by decide) .full
  have hfails : Attempt.FailsAt (brokenMiddle.treat .full) brokenMiddle.loops.entries
      [(0, loopOver .dynamic [3])] (1, loopOver (.known 2) [3, 9, 4])
      [(2, loopOver .dynamic [5])] (.lookup (.missingExpression 9)) :=
    ⟨by decide, by decide, by decide⟩
  have hfirst := failsFirst_of_failsAt hfails
  obtain ⟨hresult, hbelow, habove, -⟩ := hone.stopped _ _ _ hfirst
  exact ⟨by decide, hone, hresult, hbelow 0 (by decide), habove 2 (by decide), by decide⟩

end Program

end TensorLoops
