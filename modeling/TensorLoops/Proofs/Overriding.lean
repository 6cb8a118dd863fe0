import TensorLoops.Proofs.Calls
import TensorLoops.Proofs.Compiled
import TensorLoops.Proofs.DeclaredAmounts

namespace TensorLoops

namespace LoopPort

variable {p q r : LoopPort} {g : Graph} {loop : LoopId} {before after : Extent}

/-- Of two refreshes only the second one counts. -/
theorem refresh_refresh (h : (p.refresh g before).Reaches q)
    (hr : (q.refresh g after).Reaches r) : (p.refresh g after).Reaches r := by
  rcases reaches_refresh.mp h with ⟨hi, w, -, rfl⟩ | ⟨hi, rfl⟩
  all_goals
    rcases reaches_refresh.mp hr with ⟨hmoves, w', hw', rfl⟩ | ⟨hstays, rfl⟩
  · exact reaches_refresh.mpr (.inl ⟨hi, w', hw', rfl⟩)
  · exact absurd (hi.symm.trans hstays) (by decide)
  · exact absurd (hi.symm.trans hmoves) (by decide)
  · exact reaches_refresh.mpr (.inr ⟨hi, rfl⟩)

/-- A refresh makes up for a number of iterations that was not used in the run before. -/
theorem resolve_refresh (h : (p.resolve g loop before .full).Reaches q)
    (hr : (q.refresh g after).Reaches r) : (p.resolve g loop after .full).Reaches r := by
  obtain ⟨pointer, d, hp, hd, hq⟩ := reaches_resolve_full.mp h
  exact reaches_resolve_full.mpr ⟨pointer, d, hp, hd, refresh_refresh hq hr⟩

end LoopPort

namespace LoopRecord

variable {r r' : LoopRecord} {g : Graph} {loop : LoopId}

/-- A full run on a declared number of iterations leaves what a refresh for it leaves. -/
theorem resolve_refresh {resolved : LoopRecord} {n : UInt64}
    (h : (r.resolve g loop .full).Reaches resolved)
    (hr : (resolved.refresh g loop (.known n)).Reaches r') :
    ({ r with workAmount := .known n }.resolve g loop .full).Reaches r' := by
  obtain ⟨before, -, hports⟩ := reaches_resolve.mp h
  obtain ⟨-, hentries, hexits⟩ := reaches_eachPort.mp hports
  obtain ⟨hamount, hentries', hexits'⟩ := reaches_eachPort.mp hr
  refine reaches_resolve.mpr ⟨.known n, rfl, reaches_eachPort.mpr ⟨hamount, ?_, ?_⟩⟩
  · exact forall₂_comp hentries hentries' fun p q s hpq hqs => LoopPort.resolve_refresh hpq hqs
  · exact forall₂_comp hexits hexits' fun p q s hpq hqs => LoopPort.resolve_refresh hpq hqs

/-- Where there are no ports, a refresh sets the number of iterations and nothing else. -/
theorem refresh_of_ports_eq_nil {amount : Extent} (hports : r.ports = [])
    (h : (r.refresh g loop amount).Reaches r') : r' = { r with workAmount := amount } := by
  obtain ⟨hentries, hexits⟩ := List.append_eq_nil_iff.mp hports
  obtain ⟨hamount, hentries', hexits'⟩ := reaches_eachPort.mp h
  rw [hentries, List.forall₂_nil_left_iff] at hentries'
  rw [hexits, List.forall₂_nil_left_iff] at hexits'
  cases r'
  simp_all

end LoopRecord

namespace LoopTable

variable {t t' : LoopTable} {g : Graph} {loop : LoopId} {n : UInt64} {r r' : LoopRecord}

/-- To refresh one record of a resolved table is to resolve the table with its number of iterations
declared. -/
theorem each_resolve_refresh
    (h : (t.each fun id s => s.resolve g id .full).Reaches t') (hget : t'.get? loop = some r)
    (hr : (r.refresh g loop (.known n)).Reaches r') :
    ((t.declaring [(loop, n)]).each fun id s => s.resolve g id .full).Reaches
      (t'.modify loop fun _ => r') := by
  apply reaches_each.mpr
  refine List.forall₂_map_left_iff.mpr (List.forall₂_map_right_iff.mpr ?_)
  -- the refreshed record is known from the table after resolving
  have hmem := forall₂_of_mem (reaches_each.mp h).flip fun y hy x hxy => And.intro hy hxy
  refine hmem.flip.imp fun x y hxy => ?_
  obtain ⟨hy, hid, hresolve⟩ := hxy
  simp only [Overrides.amount_singleton, hid]
  by_cases hloop : x.1 = loop
  · have hrecord : y.2 = r := by
      refine eq_of_get? hget ?_
      rwa [← hloop, ← hid]
    rw [if_pos hloop, if_pos hloop]
    rw [← hrecord, ← hloop] at hr
    exact ⟨rfl, LoopRecord.resolve_refresh hresolve hr⟩
  · rw [if_neg hloop, if_neg hloop]
    exact ⟨hid, hresolve⟩

/-- To declare a number of iterations for one loop is to change its record. -/
theorem modify_eq_declaring (hget : t.get? loop = some r) :
    (t.modify loop fun _ => { r with workAmount := .known n }) = t.declaring [(loop, n)] := by
  apply LoopTable.ext
  refine List.map_congr_left fun x hx => ?_
  rw [Overrides.amount_singleton]
  by_cases hloop : x.1 = loop
  · have hrecord : x.2 = r := eq_of_get? hget (hloop ▸ hx)
    rw [if_pos hloop, if_pos hloop, hrecord]
  · rw [if_neg hloop, if_neg hloop]

end LoopTable

namespace Program

variable {p p' p'' : Program} {loop : LoopId}

/-- A program in which there is something to compute resolves record by record. -/
theorem resolves_iff (hl : p.hasLoops = true) :
    p.Resolves p' ↔ p'.graph = p.graph ∧
      (p.loops.each fun loop r => r.resolve p.graph loop .full).Reaches p'.loops := by
  constructor
  · intro h
    obtain ⟨hresult, rfl⟩ := h
    exact ⟨graph_resolve p .full, reaches_resolve hl hresult⟩
  · intro h
    obtain ⟨hgraph, hresult, hstate⟩ := h
    unfold Resolves resolve
    simp only [hl, if_true, Attempt.withResult, Attempt.mapState, hresult, hstate]
    exact ⟨⟨true, rfl⟩, by rw [← hgraph]⟩

/-- A program in which there is nothing to compute resolves to itself. -/
theorem resolves_iff_eq (hl : p.hasLoops = false) : p.Resolves p' ↔ p = p' := by
  simp [Resolves, resolve, hl, Attempt.done]

theorem HasPortsInside.declaring (h : p.HasPortsInside) (overrides : Overrides) :
    (p.declaring overrides).HasPortsInside := by
  intro hempty x hx
  obtain ⟨y, hy, rfl⟩ := List.mem_map.mp hx
  exact h hempty y hy

/-- To refresh one loop after resolving is to resolve a program that declares its number of
iterations. -/
theorem Resolves.refreshLoop {n : UInt64} (hinside : p.HasPortsInside) (h : p.Resolves p')
    (hr : (p'.refreshLoop loop (.known n)).Reaches p'') :
    (p.declaring [(loop, n)]).Resolves p'' := by
  obtain ⟨r, r', hget, hrefresh, rfl⟩ := reaches_refreshLoop.mp hr
  have hl' := hasLoops_declaring p [(loop, n)]
  cases hl : p.hasLoops with
  | true =>
    obtain ⟨hgraph, heach⟩ := (resolves_iff hl).mp h
    rw [hgraph] at hrefresh
    exact (resolves_iff (hl'.trans hl)).mpr
      ⟨hgraph, LoopTable.each_resolve_refresh heach hget hrefresh⟩
  | false =>
    obtain rfl := (resolves_iff_eq hl).mp h
    refine (resolves_iff_eq (hl'.trans hl)).mpr ?_
    have hmem := LoopTable.mem_of_get? hget
    -- there is a loop, so what is missing are expressions
    have hempty : p.isEmpty = true := by
      rcases Bool.and_eq_false_iff.mp hl with hexprs | hloops
      · simpa using hexprs
      · have hnil : p.loops.entries = [] := by simpa [LoopTable.isEmpty] using hloops
        rw [hnil] at hmem
        cases hmem
    rw [LoopRecord.refresh_of_ports_eq_nil (hinside hempty _ hmem) hrefresh,
      LoopTable.modify_eq_declaring hget]
    rfl

/-- To apply overrides after resolving is to resolve a program that declares them. -/
theorem Resolves.applies {span : Span} {overrides : Overrides} (hinside : p.HasPortsInside)
    (h : p.Resolves p') (ha : p'.Applies span overrides p'') :
    (p.declaring overrides).Resolves p'' := by
  induction overrides generalizing p p' with
  | nil => exact (declaring_nil p).symm ▸ applies_nil.mp ha ▸ h
  | cons entry rest ih =>
    obtain ⟨hfirst, hrest⟩ := applies_cons.mp ha
    have hdeclared := h.refreshLoop hinside (Attempt.reaches_state hfirst)
    have happend := declaring_append p [entry] rest
    rw [List.singleton_append] at happend
    rw [happend]
    exact ih (hinside.declaring [entry]) hdeclared hrest

end Program

/-- A source text of which a stage is performed can be read. -/
theorem compile_of_performs {source : String} {terminal stage : Stage} {overrides : Overrides}
    (h : (compile source terminal overrides).Performs stage) :
    ∃ kernel, readSource source = .ok kernel ∧ (Compilation.ofSource source).kernel = kernel ∧
      compile source terminal overrides = (Compilation.ofSource source).run terminal overrides := by
  unfold compile at h ⊢
  dsimp only at h ⊢
  split at h
  · exact absurd h List.not_mem_nil
  · rename_i herror
    rw [if_neg herror]
    unfold Compilation.ofSource at herror ⊢
    cases hread : readSource source with
    | error errors =>
      rw [hread] at herror
      exact absurd rfl herror
    | ok kernel => exact ⟨kernel, rfl, rfl, rfl⟩

/-- A compilation with overrides that comes to verify ends with the program and the certificate of a
run over the kernel that declares them, which comes to verify as well. -/
theorem compile_overridden (source : String) (overrides : Overrides)
    (h : (compile source .verify overrides).Performs .verify) :
    ∃ kernel, readSource source = .ok kernel ∧
      ((Compilation.ofKernel (kernel.declaring overrides)).run .verify []).Performs .verify ∧
      ∃ p certificate, (compile source .verify overrides).compilation.program = some p ∧
        ((Compilation.ofKernel (kernel.declaring overrides)).run .verify []).compilation.program =
          some p ∧
        (compile source .verify overrides).compilation.certificate = some certificate ∧
        ((Compilation.ofKernel (kernel.declaring overrides)).run .verify
          []).compilation.certificate = some certificate := by
  obtain ⟨kernel, hread, hkernel, hrun⟩ := compile_of_performs h
  refine ⟨kernel, hread, ?_⟩
  rw [hrun] at h ⊢
  have hrefreshed := (Run.performs_verify_iff _ _).mp h
  rw [Run.holds_run_refresh, hkernel] at hrefreshed
  obtain ⟨hlower, resolved, hresolve, p, happlies, -⟩ := hrefreshed
  obtain ⟨hprogram, hproblems⟩ := lower_declaring kernel overrides
  have hdeclared := hresolve.applies (hasPortsInside_lower kernel) happlies
  -- both runs refresh to `p`: one by the overrides, the other by resolving the declared program
  have hleft : ((Compilation.ofSource source).run .refresh overrides).Holds (· = p) := by
    rw [Run.holds_run_refresh, hkernel]
    exact ⟨hlower, resolved, hresolve, p, happlies, rfl⟩
  have hright : ((Compilation.ofKernel (kernel.declaring overrides)).run .refresh []).Holds
      (· = p) := by
    rw [Run.holds_run_refresh]
    refine ⟨?_, p, ?_, p, Program.applies_nil.mpr rfl, rfl⟩
    · exact hproblems ▸ hlower
    · exact hprogram ▸ hdeclared
  obtain ⟨-, hp, hc⟩ := Run.verified_of_holds hleft
  obtain ⟨hverify, hp', hc'⟩ := Run.verified_of_holds hright
  exact ⟨hverify, p, p.certificate, hp, hp', hc, hc'⟩

/-- The copy with its number of rows overridden twice. -/
theorem compile_overridden_copy :
    (compile copySource .verify [(0, 7), (0, 4)]).Performs .verify ∧
      ∃ kernel, readSource copySource = .ok kernel ∧
        ((Compilation.ofKernel (kernel.declaring [(0, 7), (0, 4)])).run .verify []).Performs
          .verify := by
  have hverify : (compile copySource .verify [(0, 7), (0, 4)]).Performs .verify := by
    decide +kernel
  obtain ⟨kernel, hread, hperforms, -⟩ := compile_overridden copySource [(0, 7), (0, 4)] hverify
  exact ⟨hverify, kernel, hread, hperforms⟩

end TensorLoops
