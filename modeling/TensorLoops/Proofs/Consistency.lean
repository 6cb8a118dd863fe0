import TensorLoops.Certificate
import TensorLoops.Proofs.PortOrder

namespace TensorLoops

namespace LoopRecord

/-- A known number of iterations is accepted when merging the extents yields a dynamic one or one
that gives way to it. -/
theorem isConsistent_iff {r : LoopRecord} {g : Graph} {loop : LoopId} {n : UInt64}
    (hn : r.workAmount = .known n) :
    r.isConsistent g loop = true ↔
      ∃ m, r.mergedExtent g loop = .ok m ∧ (m = .dynamic ∨ m.GivesWay (.known n)) := by
  unfold isConsistent
  rw [hn]
  cases r.mergedExtent g loop with
  | error e => simp [Extent.isDynamic]
  | ok m => cases m <;> simp [Extent.isDynamic, Extent.GivesWay]

theorem isConsistent_of_dynamicAmount {r : LoopRecord} (h : r.workAmount = .dynamic) (g : Graph)
    (loop : LoopId) : r.isConsistent g loop = true := by
  rw [isConsistent, h]
  rfl

theorem walks_of_isConsistent {r : LoopRecord} {g : Graph} {loop : LoopId} {n : UInt64}
    (hn : r.workAmount = .known n) (h : r.isConsistent g loop = true) :
    (r.Walks g fun _ => True) ∧
      (.dynamic ∈ r.extents g ∨ r.Walks g fun e => e = .known 1 ∨ e = .known n) := by
  obtain ⟨m, hm, hfits⟩ := (isConsistent_iff hn).mp h
  obtain ⟨hmem, hall⟩ := mergeExtents_sound hm
  refine ⟨Walks.mono hall fun _ _ => trivial, ?_⟩
  rcases hfits with rfl | hfits
  · exact .inl (hmem.resolve_left (by decide))
  · exact .inr (Walks.mono hall fun e he => Extent.givesWay_known.mp (he.trans hfits))

theorem isConsistent_of_walks {r : LoopRecord} {g : Graph} {loop : LoopId} {n : UInt64}
    (hn : r.workAmount = .known n) (h : r.Walks g fun e => e = .known 1 ∨ e = .known n) :
    r.isConsistent g loop = true := by
  obtain ⟨m, hm, hgives⟩ :=
    mergeExtents_of_givesWay (h.mono fun _ => Extent.givesWay_known.mpr) loop
  exact (isConsistent_iff hn).mpr ⟨m, hm, .inr hgives⟩

/-- Beside a dynamic extent it is enough that no two extents clash. -/
theorem isConsistent_of_dynamic {r : LoopRecord} {g : Graph} (loop : LoopId)
    (hwalks : r.Walks g fun _ => True) (hd : .dynamic ∈ r.extents g)
    (h : ∀ a ∈ r.extents g, ∀ b ∈ r.extents g, ¬ a.Clash b) : r.isConsistent g loop = true := by
  cases hn : r.workAmount with
  | dynamic => exact isConsistent_of_dynamicAmount hn g loop
  | known n =>
    obtain ⟨m, hm⟩ := exists_mergeExtents hwalks h loop
    refine (isConsistent_iff hn).mpr ⟨m, hm, .inl ?_⟩
    obtain ⟨q, hq, w, hw, hdynamic⟩ := mem_walkedExtents.mp hd
    obtain ⟨w', hw', hgives⟩ := (mergeExtents_sound hm).2 q hq
    cases hw.symm.trans hw'
    rw [hdynamic, Extent.givesWay_iff] at hgives
    rcases hgives with rfl | hone | rfl
    · rfl
    · cases hone
    · rfl

/-- Unless a dynamic extent hides a clash, the verdict does not depend on the order of the ports. -/
theorem isConsistent_perm {r r' : LoopRecord} (hw : r'.workAmount = r.workAmount)
    (h : r'.ports.Perm r.ports) {g : Graph} (hambiguous : ¬ Extent.Ambiguous (r.extents g))
    (loop : LoopId) : r'.isConsistent g loop = r.isConsistent g loop := by
  cases hn : r.workAmount with
  | dynamic =>
    rw [isConsistent_of_dynamicAmount hn, isConsistent_of_dynamicAmount (hw.trans hn)]
  | known n =>
    rw [Bool.eq_iff_iff, isConsistent_iff (hw.trans hn), isConsistent_iff hn]
    simp only [mergedExtent_perm h hambiguous]

/-- The verdict on a known number of iterations is the same for all orders of the ports exactly when
no dynamic extent stands beside two that clash. -/
theorem isConsistent_perm_iff {r : LoopRecord} {g : Graph} {n : UInt64} (loop : LoopId)
    (hn : r.workAmount = .known n) (hw : r.Walks g fun _ => True) :
    (∀ r' : LoopRecord, r'.workAmount = r.workAmount → r'.ports.Perm r.ports →
      r'.isConsistent g loop = r.isConsistent g loop) ↔ ¬ Extent.Ambiguous (r.extents g) := by
  constructor
  · intro hsame hambiguous
    obtain ⟨⟨es, hes⟩, a, b, fs, hfs, hab⟩ := Grouping.orders_of_ambiguous hambiguous
    obtain ⟨r₁, hr₁, hperm₁, hextents₁⟩ := exists_extents_perm hes
    obtain ⟨r₂, hr₂, hperm₂, hextents₂⟩ := exists_extents_perm hfs
    have hdynamic := mergedExtent_of_dynamic_first ((walks_perm hperm₁).mpr hw) hextents₁ loop
    have htrue := (isConsistent_iff (hr₁.trans hn)).mpr ⟨.dynamic, hdynamic, .inl rfl⟩
    rw [hsame r₁ hr₁ hperm₁, ← hsame r₂ hr₂ hperm₂] at htrue
    obtain ⟨m, hm, -⟩ := (isConsistent_iff (hr₂.trans hn)).mp htrue
    exact mergedExtent_of_clash_first hextents₂ hab loop m hm
  · exact fun hambiguous r' hr' hperm => isConsistent_perm hr' hperm hambiguous loop

/-- Eight iterations over two, a dynamic number of and three elements are accepted, and over two,
three and a dynamic number of elements they are not. -/
theorem order_decides_verdict :
    (loopOver (.known 8) [3, 5, 4]).ports.Perm (loopOver (.known 8) [3, 4, 5]).ports ∧
      (loopOver (.known 8) [3, 4, 5]).isConsistent threeLoads 0 = true ∧
      (loopOver (.known 8) [3, 5, 4]).isConsistent threeLoads 0 = false := by
  decide

end LoopRecord

namespace Program

theorem workAmountConsistent_iff {p : Program} : p.certificate.workAmountConsistent = true ↔
    ∀ x ∈ p.loops.entries, x.2.isConsistent p.graph x.1 = true := by
  simp only [certificate, List.all_eq_true]

/-- What the third obligation says of the ports one by one. If it holds, every moving port of a loop
with a known number of iterations can be followed, and unless one of the extents is dynamic, each
of them is one or this number. It does hold when each extent is one or this number, and also when
one of them is dynamic and no two of them clash. The order of the ports does not matter unless a
dynamic extent hides a clash. -/
theorem workAmountConsistent_walks (p : Program) :
    (p.certificate.workAmountConsistent = true →
      ∀ x ∈ p.loops.entries, ∀ n, x.2.workAmount = .known n →
        (x.2.Walks p.graph fun _ => True) ∧
          (.dynamic ∈ x.2.extents p.graph ∨
            x.2.Walks p.graph fun e => e = .known 1 ∨ e = .known n)) ∧
    ((∀ x ∈ p.loops.entries, ∀ n, x.2.workAmount = .known n →
        (x.2.Walks p.graph fun e => e = .known 1 ∨ e = .known n) ∨
          (x.2.Walks p.graph fun _ => True) ∧ .dynamic ∈ x.2.extents p.graph ∧
            ∀ a ∈ x.2.extents p.graph, ∀ b ∈ x.2.extents p.graph, ¬ a.Clash b) →
      p.certificate.workAmountConsistent = true) ∧
    ∀ (r r' : LoopRecord) (loop : LoopId), r'.workAmount = r.workAmount →
      r'.ports.Perm r.ports → ¬ Extent.Ambiguous (r.extents p.graph) →
      r'.isConsistent p.graph loop = r.isConsistent p.graph loop := by
  refine ⟨fun h x hx n hn => ?_, fun h => ?_, fun r r' loop hw hperm hambiguous => ?_⟩
  · exact LoopRecord.walks_of_isConsistent hn (workAmountConsistent_iff.mp h x hx)
  · refine workAmountConsistent_iff.mpr fun x hx => ?_
    cases hn : x.2.workAmount with
    | dynamic => exact LoopRecord.isConsistent_of_dynamicAmount hn p.graph x.1
    | known n =>
      rcases h x hx n hn with hfits | ⟨hwalks, hd, hclash⟩
      · exact LoopRecord.isConsistent_of_walks hn hfits
      · exact LoopRecord.isConsistent_of_dynamic x.1 hwalks hd hclash
  · exact LoopRecord.isConsistent_perm hw hperm hambiguous loop

/-- Eight iterations over two elements, beside a dynamic number of elements. -/
def eightTimes : Program := ⟨threeLoads, LoopTable.empty.insert 0 (loopOver (.known 8) [3, 4])⟩

/-- The dynamic extent hides that two elements are too few. -/
theorem dynamic_hides_extent :
    ¬ (eightTimes.certificate.workAmountConsistent = true ↔
      ∀ x ∈ eightTimes.loops.entries, ∀ n, x.2.workAmount = .known n →
        x.2.Walks eightTimes.graph fun e => e = .dynamic ∨ e = .known 1 ∨ e = .known n) := by
  intro h
  have hwalks := h.mp (by decide) (0, loopOver (.known 8) [3, 4]) (by decide) 8 rfl
  exact absurd hwalks (by decide)

theorem workAmountConsistent_walks_eightTimes :
    eightTimes.certificate.workAmountConsistent = true ∧
      (.dynamic ∈ (loopOver (.known 8) [3, 4]).extents threeLoads ∨
        (loopOver (.known 8) [3, 4]).Walks threeLoads fun e => e = .known 1 ∨ e = .known 8) ∧
      (loopOver (.known 8) [4, 3]).isConsistent threeLoads 0 =
        (loopOver (.known 8) [3, 4]).isConsistent threeLoads 0 := by
  obtain ⟨hconsistent, -, hperm⟩ := workAmountConsistent_walks eightTimes
  refine ⟨by decide, ?_, ?_⟩
  · exact (hconsistent (by decide) (0, loopOver (.known 8) [3, 4]) (by decide) 8 rfl).2
  · exact hperm (loopOver (.known 8) [3, 4]) (loopOver (.known 8) [4, 3]) 0 rfl (by decide)
      (by decide)

end Program

end TensorLoops
