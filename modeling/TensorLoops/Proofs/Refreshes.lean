import TensorLoops.Proofs.Interruption
import TensorLoops.Proofs.Topology

namespace TensorLoops

namespace Attempt

variable {σ : Type} {f f' : σ → Attempt σ Unit}

theorem Alike.of_eq {a b : Attempt σ Unit} (h : a = b) : a.Alike b := h ▸ .refl a

/-- Where a list stops is known from the results alone. -/
theorem failsAt_congr (h : ∀ x, (f x).result = (f' x).result) {xs before rest : List σ} {x : σ}
    {e : LoopError} : FailsAt f xs before x rest e ↔ FailsAt f' xs before x rest e := by
  constructor
  · intro hfails
    exact ⟨hfails.split, fun y hy => h y ▸ hfails.succeeds y hy, h x ▸ hfails.fails⟩
  · intro hfails
    exact ⟨hfails.split, fun y hy => (h y).trans (hfails.succeeds y hy), (h x).trans hfails.fails⟩

/-- Lists of attempts end with the same result when the single attempts do. -/
theorem result_each_congr (h : ∀ x, (f x).result = (f' x).result) (xs : List σ) :
    (each f xs).result = (each f' xs).result := by
  induction xs with
  | nil => rfl
  | cons x xs ih =>
    simp only [each, ← h x]
    cases (f x).result with
    | error e => rfl
    | ok u => exact ih

theorem each_eq_error_iff {xs : List σ} {e : LoopError} :
    (each f xs).result = .error e ↔ ∃ before x rest, FailsAt f xs before x rest e := by
  refine ⟨exists_failsAt, fun h => ?_⟩
  obtain ⟨before, x, rest, hfails⟩ := h
  exact hfails.each.1

/-- Treatments that stop in the same place, of which the second one overwrites the first on each
element, do so on the list. -/
theorem alike_each_again (hresult : ∀ x, (f x).result = (f' x).result)
    (hagain : ∀ x, (f' (f x).state).Alike (f' x)) (xs : List σ) :
    (each f' (each f xs).state).Alike (each f' xs) := by
  have hstates : ∀ ys : List σ, (ys.map fun y => (f y).state).map (fun z => (f' z).state) =
      ys.map fun y => (f' y).state := by
    intro ys
    rw [List.map_map]
    exact List.map_congr_left fun y _ => (hagain y).1
  have hresults : ∀ x, (f' (f x).state).result = (f x).result :=
    fun x => (hagain x).2.trans (hresult x).symm
  rcases all_ok_or_failsAt f xs with hall | ⟨before, x, rest, e, hfails⟩
  · obtain ⟨-, hstate⟩ := reaches_each_map hall
    obtain ⟨hr, hs⟩ := reaches_each_map (f := f') fun x hx => (hresult x).symm.trans (hall x hx)
    have hall' : ∀ y ∈ xs.map fun x => (f x).state, (f' y).result = .ok () :=
      List.forall_mem_map.mpr fun x hx => (hresults x).trans (hall x hx)
    obtain ⟨hr', hs'⟩ := reaches_each_map hall'
    rw [hstate]
    exact ⟨by rw [hs', hs, hstates], hr'.trans hr.symm⟩
  · obtain ⟨-, hstate⟩ := hfails.each
    obtain ⟨hr, hs⟩ := ((failsAt_congr hresult).mp hfails).each
    have hagain_fails : FailsAt f' (each f xs).state (before.map fun y => (f y).state) (f x).state
        rest e := by
      refine ⟨hstate, List.forall_mem_map.mpr fun y hy => ?_, (hresults x).trans hfails.fails⟩
      exact (hresults y).trans (hfails.succeeds y hy)
    obtain ⟨hr', hs'⟩ := hagain_fails.each
    exact ⟨by rw [hs', hs, hstates, (hagain x).1], hr'.trans hr.symm⟩

end Attempt

namespace LoopPort

variable {q : LoopPort} {g : Graph}

/-- Whether a refresh fails, and why, does not depend on the number of iterations. -/
theorem result_refresh_eq (q : LoopPort) (g : Graph) (before after : Extent) :
    (q.refresh g before).result = (q.refresh g after).result := by
  cases hmoves : q.incremented with
  | false =>
    rw [refresh_of_fixed hmoves, refresh_of_fixed hmoves]
    rfl
  | true =>
    cases hw : q.walk g with
    | error e => rw [refresh_of_error hmoves hw, refresh_of_error hmoves hw]
    | ok w =>
      rw [refresh_of_walk hmoves hw, refresh_of_walk hmoves hw]
      rfl

/-- Of two refreshes only the second one counts, also if they fail. -/
theorem alike_refresh_again (q : LoopPort) (g : Graph) (before after : Extent) :
    ((q.refresh g before).state.refresh g after).Alike (q.refresh g after) := by
  cases hmoves : q.incremented with
  | false =>
    have hagain := refresh_of_fixed (p := q.withIncrement .zero before) (g := g) hmoves after
    rw [refresh_of_fixed hmoves before, refresh_of_fixed hmoves after]
    exact .of_eq hagain
  | true =>
    -- the first refresh leaves the place of the port, and so what the second one looks up
    cases hw : q.walk g with
    | error e =>
      have hagain := refresh_of_error (p := { q with increment := .zero }) hmoves hw after
      rw [refresh_of_error hmoves hw before, refresh_of_error hmoves hw after]
      exact .of_eq hagain
    | ok w =>
      have hagain := refresh_of_walk (p := q.withIncrement (w.increment before) before) hmoves hw
        after
      rw [refresh_of_walk hmoves hw before, refresh_of_walk hmoves hw after]
      exact .of_eq hagain

end LoopPort

namespace LoopRecord

variable {r r' : LoopRecord} {g : Graph} {loop : LoopId}

theorem eq_of_ports (hamount : r.workAmount = r'.workAmount) (hports : r.ports = r'.ports)
    (hlength : r.entries.length = r'.entries.length) : r = r' := by
  obtain ⟨amount, entries, exits⟩ := r
  obtain ⟨amount', entries', exits'⟩ := r'
  obtain ⟨rfl, rfl⟩ := List.append_inj hports hlength
  cases hamount
  rfl

theorem result_eachPort_congr {f f' : LoopPort → Attempt LoopPort Unit}
    (hports : r.ports = r'.ports) (h : ∀ q, (f q).result = (f' q).result) :
    (r.eachPort f).result = (r'.eachPort f').result := by
  rw [(ports_eachPort r f).1, (ports_eachPort r' f').1, hports, Attempt.result_each_congr h]

/-- Records end alike when their ports do. -/
theorem alike_eachPort_of_ports {f f' : LoopPort → Attempt LoopPort Unit}
    (hamount : r.workAmount = r'.workAmount) (hlength : r.entries.length = r'.entries.length)
    (hports : (Attempt.each f r.ports).Alike (Attempt.each f' r'.ports)) :
    (r.eachPort f).Alike (r'.eachPort f') := by
  obtain ⟨hresult, hstate⟩ := ports_eachPort r f
  obtain ⟨hresult', hstate'⟩ := ports_eachPort r' f'
  obtain ⟨hs, hr⟩ := hports
  refine ⟨eq_of_ports ?_ ?_ ?_, ?_⟩
  · rw [workAmount_eachPort, workAmount_eachPort, hamount]
  · rw [hstate, hstate', hs]
  · rw [length_entries_eachPort, length_entries_eachPort, hlength]
  · rw [hresult, hresult', hr]

/-- A refresh of the record fails with `e` at this position of its ports. -/
def RefreshFailsAt (r : LoopRecord) (g : Graph) (amount : Extent) (position : Nat) (e : LoopError) :
    Prop :=
  ∃ before q rest, Attempt.FailsAt (·.refresh g amount) r.ports before q rest e ∧
    before.length = position

theorem result_refresh_eq_error {amount : Extent} {e : LoopError} :
    (r.refresh g loop amount).result = .error e ↔ ∃ i, r.RefreshFailsAt g amount i e := by
  have hports : (r.refresh g loop amount).result =
      (Attempt.each (·.refresh g amount) r.ports).result :=
    (ports_eachPort { r with workAmount := amount } _).1
  rw [hports, Attempt.each_eq_error_iff]
  constructor
  · intro h
    obtain ⟨before, q, rest, hfails⟩ := h
    exact ⟨before.length, before, q, rest, hfails, rfl⟩
  · intro h
    obtain ⟨-, before, q, rest, hfails, -⟩ := h
    exact ⟨before, q, rest, hfails⟩

/-- Where a refresh fails does not depend on the number of iterations. -/
theorem refreshFailsAt_iff {before after : Extent} {i : Nat} {e : LoopError} :
    r.RefreshFailsAt g before i e ↔ r.RefreshFailsAt g after i e := by
  unfold RefreshFailsAt
  simp only [Attempt.failsAt_congr fun q => LoopPort.result_refresh_eq q g before after]

theorem result_refresh_eq (r : LoopRecord) (g : Graph) (loop : LoopId) (before after : Extent) :
    (r.refresh g loop before).result = (r.refresh g loop after).result := by
  have hports : ({ r with workAmount := before } : LoopRecord).ports =
      ({ r with workAmount := after } : LoopRecord).ports := rfl
  exact result_eachPort_congr hports fun q => q.result_refresh_eq g before after

/-- Of two refreshes of a record only the second one counts, wherever they stop. -/
theorem alike_refresh_again (r : LoopRecord) (g : Graph) (loop : LoopId) (before after : Extent) :
    ((r.refresh g loop before).state.refresh g loop after).Alike (r.refresh g loop after) := by
  let treated := (({ r with workAmount := before }).eachPort (·.refresh g before)).state
  have hports : treated.ports = (Attempt.each (·.refresh g before) r.ports).state :=
    (ports_eachPort { r with workAmount := before } _).2
  have hagain : (({ treated with workAmount := after }).eachPort (·.refresh g after)).Alike
      (({ r with workAmount := after }).eachPort (·.refresh g after)) := by
    refine alike_eachPort_of_ports rfl (length_entries_eachPort _ _) ?_
    have hlist := Attempt.alike_each_again (fun q => q.result_refresh_eq g before after)
      (fun q => q.alike_refresh_again g before after) r.ports
    rw [← hports] at hlist
    exact hlist
  exact ((Attempt.alike_after _ _).trans hagain).trans (Attempt.alike_after _ _).symm

end LoopRecord

namespace LoopTable

variable {t : LoopTable} {id other : LoopId} {f k : LoopRecord → LoopRecord}

theorem get?_modify : (t.modify id f).get? other =
    if other = id then (t.get? other).map f else t.get? other := by
  have hkey : (fun x : LoopId × LoopRecord => x.1 == other) ∘
      (fun x => if x.1 = id then (x.1, f x.2) else x) = fun x => x.1 == other := by
    funext x
    dsimp only [Function.comp]
    split <;> rfl
  unfold get? modify
  rw [List.find?_map, hkey]
  cases hfind : t.entries.find? (·.1 == other) with
  | none => simp
  | some x =>
    have hid : x.1 = other := by simpa using List.find?_some hfind
    by_cases hother : other = id <;> simp [hid, hother]

/-- Of two changes of one record to fixed ones the second counts. -/
theorem modify_modify (t : LoopTable) (id : LoopId) (r r' : LoopRecord) :
    (t.modify id fun _ => r).modify id (fun _ => r') = t.modify id fun _ => r' := by
  apply LoopTable.ext
  refine (List.map_map ..).trans (List.map_congr_left fun x _ => ?_)
  dsimp only [Function.comp]
  by_cases hid : x.1 = id <;> simp [hid]

/-- Changes of different records can change places. -/
theorem modify_comm (t : LoopTable) (h : id ≠ other) (f k : LoopRecord → LoopRecord) :
    (t.modify id f).modify other k = (t.modify other k).modify id f := by
  apply LoopTable.ext
  refine (List.map_map ..).trans (.trans (List.map_congr_left fun x _ => ?_) (List.map_map ..).symm)
  dsimp only [Function.comp]
  by_cases hid : x.1 = id
  · simp [hid, h]
  · by_cases hother : x.1 = other
    · simp [hother, h.symm]
    · simp [hid, hother]

end LoopTable

namespace Program

variable {p : Program} {loop other : LoopId}

/-- To treat a loop leaves the records of the others alone. -/
theorem get?_onLoop_of_ne (p : Program) (h : loop ≠ other) (f : LoopRecord → Attempt LoopRecord Unit) :
    (p.onLoop loop f).state.loops.get? other = p.loops.get? other := by
  cases hget : p.loops.get? loop with
  | none => rw [onLoop_of_missing hget]; rfl
  | some r =>
    rw [onLoop_of_get? hget]
    exact LoopTable.get?_modify.trans (if_neg h.symm)

/-- Treatments of different loops can change places. -/
theorem onLoop_comm (p : Program) (h : loop ≠ other) (f k : LoopRecord → Attempt LoopRecord Unit) :
    ((p.onLoop loop f).state.onLoop other k).result = (p.onLoop other k).result ∧
      ((p.onLoop loop f).state.onLoop other k).state =
        ((p.onLoop other k).state.onLoop loop f).state := by
  have hother := p.get?_onLoop_of_ne h f
  have hloop := p.get?_onLoop_of_ne h.symm k
  cases hl : p.loops.get? loop with
  | none =>
    rw [hl] at hloop
    rw [onLoop_of_missing hloop, onLoop_of_missing hl]
    exact ⟨rfl, rfl⟩
  | some r =>
    cases ho : p.loops.get? other with
    | none =>
      rw [ho] at hother
      rw [onLoop_of_missing hother, onLoop_of_missing ho]
      exact ⟨rfl, rfl⟩
    | some s =>
      rw [hl] at hloop
      rw [ho] at hother
      rw [onLoop_of_get? hother, onLoop_of_get? hloop, onLoop_of_get? hl, onLoop_of_get? ho]
      refine ⟨rfl, ?_⟩
      simp only [Attempt.mapState]
      rw [LoopTable.modify_comm _ h]

/-- Of two treatments of a loop only the second one counts if it does so for the record. -/
theorem onLoop_again (p : Program) (loop : LoopId) {f k : LoopRecord → Attempt LoopRecord Unit}
    (h : ∀ r, (k (f r).state).Alike (k r)) :
    ((p.onLoop loop f).state.onLoop loop k).Alike (p.onLoop loop k) := by
  cases hget : p.loops.get? loop with
  | none =>
    rw [onLoop_of_missing hget]
    exact .refl _
  | some r =>
    have hagain : (p.onLoop loop f).state.loops.get? loop = some (f r).state := by
      rw [onLoop_of_get? hget]
      refine LoopTable.get?_modify.trans ?_
      rw [if_pos rfl, hget]
      rfl
    obtain ⟨hstate, hresult⟩ := h r
    rw [onLoop_of_get? hagain, onLoop_of_get? hget, onLoop_of_get? hget]
    refine ⟨?_, hresult⟩
    simp only [Attempt.mapState, hstate, LoopTable.modify_modify]

/-- A refresh looks things up in the same graph as any refresh before it. -/
theorem refreshLoop_refreshLoop (p : Program) (loop other : LoopId) (before after : Extent) :
    (p.refreshLoop loop before).state.refreshLoop other after =
      (p.refreshLoop loop before).state.onLoop other fun r => r.refresh p.graph other after := by
  rw [refreshLoop, graph_refreshLoop]

theorem result_refreshLoop_eq (p : Program) (loop : LoopId) (before after : Extent) :
    (p.refreshLoop loop before).result = (p.refreshLoop loop after).result := by
  cases hget : p.loops.get? loop with
  | none => rw [refreshLoop, refreshLoop, onLoop_of_missing hget, onLoop_of_missing hget]
  | some r =>
    rw [refreshLoop, refreshLoop, onLoop_of_get? hget, onLoop_of_get? hget]
    exact r.result_refresh_eq p.graph loop before after

/-- Of two refreshes of a loop only the second one counts. Whether a refresh fails, why, and at which
port does not depend on the number of iterations. Refreshes of different loops can change places. All
of this holds whether the refreshes succeed or not. -/
theorem refreshLoop_again (p : Program) (loop other : LoopId) (before after : Extent) :
    ((p.refreshLoop loop before).state.refreshLoop loop after).Alike (p.refreshLoop loop after) ∧
    (p.refreshLoop loop before).result = (p.refreshLoop loop after).result ∧
    (∀ r, p.loops.get? loop = some r → ∀ e,
      ((p.refreshLoop loop before).result = .error e ↔
        ∃ i, r.RefreshFailsAt p.graph before i e) ∧
      ∀ i, r.RefreshFailsAt p.graph before i e ↔ r.RefreshFailsAt p.graph after i e) ∧
    (loop ≠ other →
      ((p.refreshLoop loop before).state.refreshLoop other after).result =
        (p.refreshLoop other after).result ∧
      ((p.refreshLoop other after).state.refreshLoop loop before).result =
        (p.refreshLoop loop before).result ∧
      ((p.refreshLoop loop before).state.refreshLoop other after).state =
        ((p.refreshLoop other after).state.refreshLoop loop before).state) := by
  refine ⟨?_, p.result_refreshLoop_eq loop before after, fun r hr e => ⟨?_, fun i => ?_⟩,
    fun hne => ?_⟩
  · rw [refreshLoop_refreshLoop]
    exact p.onLoop_again loop fun r => r.alike_refresh_again p.graph loop before after
  · have hrecord : (r.refresh p.graph loop before).result = .error e ↔ _ :=
      LoopRecord.result_refresh_eq_error
    rw [refreshLoop, onLoop_of_get? hr]
    exact hrecord
  · exact LoopRecord.refreshFailsAt_iff
  · rw [refreshLoop_refreshLoop, refreshLoop_refreshLoop]
    obtain ⟨hother, hstate⟩ := p.onLoop_comm hne (·.refresh p.graph loop before)
      (·.refresh p.graph other after)
    obtain ⟨hloop, -⟩ := p.onLoop_comm hne.symm (·.refresh p.graph other after)
      (·.refresh p.graph loop before)
    exact ⟨hother, hloop, hstate⟩

/-- The middle loop fails at one of its ports, before and after the last loop has been refreshed. -/
theorem refreshLoop_again_brokenMiddle :
    brokenMiddle.loops.get? 1 = some (loopOver (.known 2) [3, 9, 4]) ∧
      (∃ i, (loopOver (.known 2) [3, 9, 4]).RefreshFailsAt threeLoads (.known 5) i
        (.lookup (.missingExpression 9))) ∧
      (1 : LoopId) ≠ 2 ∧
      ((brokenMiddle.refreshLoop 1 (.known 5)).state.refreshLoop 2 .dynamic).state =
        ((brokenMiddle.refreshLoop 2 .dynamic).state.refreshLoop 1 (.known 5)).state := by
  obtain ⟨-, -, hfails, hcomm⟩ := refreshLoop_again brokenMiddle 1 2 (.known 5) .dynamic
  have hrecord : brokenMiddle.loops.get? 1 = some (loopOver (.known 2) [3, 9, 4]) := by decide
  have hresult : (brokenMiddle.refreshLoop 1 (.known 5)).result =
      .error (.lookup (.missingExpression 9)) := by decide
  have hne : (1 : LoopId) ≠ 2 := by decide
  exact ⟨hrecord, ((hfails _ hrecord _).1).mp hresult, hne, (hcomm hne).2.2⟩

end Program

end TensorLoops
