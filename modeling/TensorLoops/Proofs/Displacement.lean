import Mathlib.Algebra.BigOperators.Group.List.Basic
import TensorLoops.Proofs.Consistency
import TensorLoops.Proofs.Rewinding
import TensorLoops.Proofs.Settled

namespace TensorLoops

theorem runningProduct_eq_exact {sofar m : Nat} {extents : List Extent}
    (h : runningProduct sofar extents = .exact m) :
    ∃ ns : List UInt64, extents = ns.map .known ∧ m = sofar * (ns.map UInt64.toNat).prod := by
  induction extents generalizing sofar with
  | nil =>
    cases h
    exact ⟨[], rfl, by simp⟩
  | cons e rest ih =>
    cases e with
    | dynamic => cases h
    | known n =>
      unfold runningProduct at h
      split at h
      · obtain ⟨ns, rfl, rfl⟩ := ih h
        exact ⟨n :: ns, rfl, by simp [mul_assoc]⟩
      · cases h

namespace Walk

/-- All extents after the axis are known and `stride` is their product. -/
def HasStride (w : Walk) (stride : Int64) : Prop :=
  ∃ ns : List UInt64, w.shape.drop (w.axis + 1) = ns.map .known ∧
    stride.toInt = (ns.map UInt64.toNat).prod

/-- A pointer that has moved `i` times by `increment` stands at an index of the axis: at the first
one if it does not move, else at index `i`. -/
def Inside (w : Walk) (increment : Int64) (i : Nat) : Prop :=
  ∃ e, w.extent = .known e ∧
    (increment = 0 ∧ 1 ≤ e.toNat ∨ w.HasStride increment ∧ i < e.toNat)

theorem hasStride_of_strideAfter {w : Walk} {c : Int64}
    (h : strideAfter w.axis w.shape = .known c) : w.HasStride c := by
  unfold strideAfter at h
  split at h
  · rename_i n hn
    obtain ⟨ns, hns, hm⟩ := runningProduct_eq_exact hn
    refine ⟨ns, hns, ?_⟩
    rw [Offset.ofInt_eq_known_iff.mp h, hm, one_mul]
  · cases h
  · cases h

theorem broadcast_iff {w : Walk} {n : UInt64} {e : UInt64} (he : w.extent = .known e) :
    w.step (.known n) = .broadcast ↔ e = 1 ∧ n ≠ 1 := by
  unfold step
  rw [he]
  simp only [Extent.isDynamic, Extent.isOne, Bool.and_false, Bool.false_eq_true, if_false]
  by_cases h1 : e = 1 <;> by_cases hn : n = 1 <;> simp [h1, hn]

/-- The cases of a known increment along an axis of known extent. -/
theorem increment_eq_known {w : Walk} {n e : UInt64} {c : Int64} (he : w.extent = .known e)
    (h : w.increment (.known n) = .known c) :
    e = 1 ∧ n ≠ 1 ∧ c = 0 ∨ ¬ (e = 1 ∧ n ≠ 1) ∧ w.HasStride c := by
  unfold increment at h
  cases hs : w.step (.known n) with
  | unknown =>
    rw [hs] at h
    cases h
  | broadcast =>
    obtain ⟨h1, hn⟩ := (broadcast_iff he).mp hs
    rw [hs] at h
    cases h
    exact .inl ⟨h1, hn, rfl⟩
  | strided =>
    have hnot : ¬ (e = 1 ∧ n ≠ 1) := by
      intro hb
      have hb' := (broadcast_iff he).mpr hb
      rw [hs] at hb'
      cases hb'
    rw [hs] at h
    exact .inr ⟨hnot, hasStride_of_strideAfter h⟩

/-- When the extent is one or the number of iterations, no iteration leaves the axis. -/
theorem inside_of_increment {w : Walk} {n e : UInt64} {c : Int64} (he : w.extent = .known e)
    (hfit : e = 1 ∨ e = n) (h : w.increment (.known n) = .known c) :
    ∀ i < n.toNat, w.Inside c i := by
  intro i hi
  refine ⟨e, he, ?_⟩
  rcases increment_eq_known he h with ⟨rfl, -, rfl⟩ | ⟨hnot, hstride⟩
  · exact .inl ⟨rfl, Nat.le_refl _⟩
  · refine .inr ⟨hstride, ?_⟩
    rcases hfit with h1 | rfl
    · have hn : n = 1 := by
        by_contra hn
        exact hnot ⟨h1, hn⟩
      rw [h1, ← hn]
      exact hi
    · exact hi

end Walk

namespace LoopRecord

/-- The extents of the moving ports agree with the number of iterations. -/
theorem fits_of_consistent {r : LoopRecord} {g : Graph} {loop : LoopId} {n : UInt64}
    (hn : r.workAmount = .known n) (h : r.isConsistent g loop = true)
    (hknown : ∀ q ∈ r.movingPorts, ∃ w e, q.walk g = .ok w ∧ w.extent = .known e) :
    ∀ q ∈ r.movingPorts, ∃ w e, q.walk g = .ok w ∧ w.extent = .known e ∧ (e = 1 ∨ e = n) := by
  obtain ⟨-, hdynamic | hfits⟩ := walks_of_isConsistent hn h
  · obtain ⟨q, hq, w, hw, hd⟩ := mem_walkedExtents.mp hdynamic
    obtain ⟨w', e, hw', he⟩ := hknown q hq
    cases hw.symm.trans hw'
    cases he.symm.trans hd
  · intro q hq
    obtain ⟨w, e, hw, he⟩ := hknown q hq
    obtain ⟨w', hw', hfit⟩ := hfits q hq
    cases hw.symm.trans hw'
    rw [he, Extent.known.injEq, Extent.known.injEq] at hfit
    exact ⟨w, e, hw, he, hfit⟩

/-- The pointers of a loop with `n` iterations stay on the axes they walk, and return. -/
structure StaysInside (r : LoopRecord) (g : Graph) (n : UInt64) : Prop where
  inside : ∀ q ∈ r.movingPorts, ∀ c, q.increment = .known c →
    ∃ w, q.walk g = .ok w ∧ ∀ i < n.toNat, w.Inside c i
  returns : ∀ q ∈ r.movingPorts, ∀ c f, q.increment = .known c → q.finalization = .known f →
    n.toNat * c.toInt + f.toInt = 0

theorem Computed.staysInside {r : LoopRecord} {g : Graph} {loop : LoopId} {n : UInt64}
    (hc : r.Computed g) (hn : r.workAmount = .known n) (h : r.isConsistent g loop = true)
    (hknown : ∀ q ∈ r.movingPorts, ∃ w e, q.walk g = .ok w ∧ w.extent = .known e) :
    r.StaysInside g n := by
  have hmoving : ∀ q ∈ r.movingPorts, q.Computed g (.known n) ∧ q.incremented = true := by
    intro q hq
    obtain ⟨hq, hi⟩ := List.mem_filter.mp hq
    exact ⟨hn ▸ hc q hq, hi⟩
  constructor
  · intro q hq c hinc
    obtain ⟨hcomp, hi⟩ := hmoving q hq
    obtain ⟨w, hw, hstep⟩ := hcomp.moves hi
    obtain ⟨w', e, hw', he, hfit⟩ := fits_of_consistent hn h hknown q hq
    cases hw.symm.trans hw'
    exact ⟨w, hw, Walk.inside_of_increment he hfit (hstep ▸ hinc)⟩
  · intro q hq c f hinc hfin
    have hr := (hmoving q hq).1.rewinds
    rw [hinc, hfin] at hr
    exact Offset.rewind_exact hr.symm

end LoopRecord

end TensorLoops
