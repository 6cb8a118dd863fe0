import Mathlib.Algebra.Group.Int.Defs
import Mathlib.Algebra.Group.Nat.Defs
import TensorLoops.Offset

namespace TensorLoops

namespace Offset

/-- The integers in range are those of the signed 64-bit numbers. -/
theorem inRange_iff {z : Int} : InRange z ↔ ∃ n : Int64, n.toInt = z := by
  constructor
  · intro h
    exact ⟨Int64.ofInt z, Int64.toInt_ofInt_of_le h.1 h.2⟩
  · rintro ⟨n, rfl⟩
    exact ⟨n.le_toInt, n.toInt_lt⟩

/-- An integer is kept exactly or not at all. -/
theorem ofInt_eq_known_iff {z : Int} {n : Int64} : ofInt z = known n ↔ n.toInt = z := by
  constructor
  · intro h
    unfold ofInt at h
    split at h
    · rename_i hz
      cases h
      exact Int64.toInt_ofInt_of_le hz.1 hz.2
    · cases h
  · rintro rfl
    rw [ofInt_of_inRange (inRange_iff.mpr ⟨n, rfl⟩), Int64.ofInt_toInt]

/-- The range is not symmetric: the number of iterations is one of it, and the way and the way back
both are, exactly when all of them are shorter than `2 ^ 63`. -/
theorem canRewind_iff {increment : Int64} {iterations : UInt64} :
    CanRewind increment iterations ↔
      iterations.toNat < 2 ^ 63 ∧ -2 ^ 63 < increment.toInt * iterations.toNat ∧
        increment.toInt * iterations.toNat < 2 ^ 63 := by
  unfold CanRewind InRange
  omega

/-- A known way back is the exact one. -/
theorem rewind_eq_known_iff {increment f : Int64} {iterations : UInt64} :
    (known increment).rewind (.known iterations) = known f ↔
      CanRewind increment iterations ∧ f.toInt = -(increment.toInt * iterations.toNat) := by
  unfold rewind
  dsimp only
  split
  · rename_i h
    simp only [ofInt_eq_known_iff, h, true_and]
  · rename_i h
    simp only [h, false_and, reduceCtorEq]

theorem exists_rewind_eq_known_iff {increment : Int64} {iterations : UInt64} :
    (∃ f, (known increment).rewind (.known iterations) = known f) ↔
      CanRewind increment iterations := by
  constructor
  · rintro ⟨f, hf⟩
    exact (rewind_eq_known_iff.mp hf).1
  · intro h
    obtain ⟨f, hf⟩ := inRange_iff.mp h.2.2
    exact ⟨f, rewind_eq_known_iff.mpr ⟨h, hf⟩⟩

/-- A known finalization offset undoes all iterations. -/
theorem rewind_exact {increment f : Int64} {iterations : UInt64}
    (h : (known increment).rewind (.known iterations) = known f) :
    iterations.toNat * increment.toInt + f.toInt = 0 := by
  rw [(rewind_eq_known_iff.mp h).2, Int.mul_comm]
  exact Int.add_right_neg _

/-- The result of an operation on 64-bit numbers, if it is the exact one. -/
def exactly? (result : Int64) (exact : Int) : Option Int64 :=
  if result.toInt = exact then some result else none

/-- The way back in 64-bit arithmetic: the iterations as a signed number, the way that the pointer
goes in them, and the negation of it. When one of the three steps wraps around, there is none. -/
def wayBack? (increment : Int64) (iterations : UInt64) : Option Int64 := do
  let n ← exactly? iterations.toInt64 iterations.toNat
  let way ← exactly? (increment * n) (increment.toInt * n.toInt)
  exactly? (-way) (-way.toInt)

/-- An operation that is exact up to wrapping gives the exact result if there is one. -/
theorem exactly?_eq_some_iff {result n : Int64} {exact : Int} (h : result = Int64.ofInt exact) :
    exactly? result exact = some n ↔ n.toInt = exact := by
  unfold exactly?
  constructor
  · intro hn
    split at hn
    · rename_i hexact
      cases hn
      exact hexact
    · cases hn
  · rintro rfl
    rw [h, Int64.ofInt_toInt, if_pos rfl]

theorem wayBack?_eq_some_iff {increment f : Int64} {iterations : UInt64} :
    wayBack? increment iterations = some f ↔
      CanRewind increment iterations ∧ f.toInt = -(increment.toInt * iterations.toNat) := by
  have hn {n : Int64} :
      exactly? iterations.toInt64 iterations.toNat = some n ↔ n.toInt = iterations.toNat :=
    exactly?_eq_some_iff (by
      rw [Int64.ofInt_eq_ofNat, ← UInt64.toInt64_ofNat', UInt64.ofNat_toNat])
  have hway {n way : Int64} :
      exactly? (increment * n) (increment.toInt * n.toInt) = some way ↔
        way.toInt = increment.toInt * n.toInt :=
    exactly?_eq_some_iff (by rw [Int64.ofInt_mul, Int64.ofInt_toInt, Int64.ofInt_toInt])
  have hback {way : Int64} : exactly? (-way) (-way.toInt) = some f ↔ f.toInt = -way.toInt :=
    exactly?_eq_some_iff (by rw [Int64.ofInt_neg, Int64.ofInt_toInt])
  simp only [wayBack?, Option.bind_eq_bind, Option.bind_eq_some_iff, hn, hway, hback]
  constructor
  · rintro ⟨n, hn, way, hway, hf⟩
    rw [hn] at hway
    rw [hway] at hf
    have hlt := n.toInt_lt
    exact ⟨⟨by omega, inRange_iff.mpr ⟨way, hway⟩, inRange_iff.mpr ⟨f, hf⟩⟩, hf⟩
  · rintro ⟨⟨hlt, hrange, -⟩, hf⟩
    have hsigned : InRange iterations.toNat := by
      unfold InRange
      omega
    obtain ⟨n, hn⟩ := inRange_iff.mp hsigned
    obtain ⟨way, hway⟩ := inRange_iff.mp hrange
    exact ⟨n, hn, way, by rw [hn, hway], by rw [hway, hf]⟩

theorem rewind_eq_wayBack? (increment : Int64) (iterations : UInt64) :
    (known increment).rewind (.known iterations) =
      (wayBack? increment iterations).elim dynamic known := by
  cases hback : wayBack? increment iterations with
  | some f => exact rewind_eq_known_iff.mpr (wayBack?_eq_some_iff.mp hback)
  | none =>
    cases hrewind : (known increment).rewind (.known iterations) with
    | dynamic => rfl
    | known f =>
      have hsome := wayBack?_eq_some_iff.mpr (rewind_eq_known_iff.mp hrewind)
      rw [hback] at hsome
      cases hsome

/-- The offset is known exactly when the iterations are below `2 ^ 63` and the way that the pointer
goes in them lies strictly between `-2 ^ 63` and `2 ^ 63`; then it is the opposite of that way. It
is dynamic when the increment or the number of iterations is. The steps of 64-bit arithmetic lead to
the same offset, and none of those that it depends on wraps around. -/
theorem rewind_exact_within_bounds (increment : Int64) (iterations : UInt64) :
    (∀ f, (known increment).rewind (.known iterations) = known f ↔
      (iterations.toNat < 2 ^ 63 ∧ -2 ^ 63 < increment.toInt * iterations.toNat ∧
        increment.toInt * iterations.toNat < 2 ^ 63) ∧
      f.toInt = -(increment.toInt * iterations.toNat)) ∧
    ((∃ f, (known increment).rewind (.known iterations) = known f) ↔
      iterations.toNat < 2 ^ 63 ∧ -2 ^ 63 < increment.toInt * iterations.toNat ∧
        increment.toInt * iterations.toNat < 2 ^ 63) ∧
    (∀ o : Offset, o.rewind .dynamic = dynamic) ∧ (∀ e, dynamic.rewind e = dynamic) ∧
    (known increment).rewind (.known iterations) =
      (wayBack? increment iterations).elim dynamic known := by
  refine ⟨fun f => ?_, ?_, rewind_dynamic_right, rewind_dynamic_left,
    rewind_eq_wayBack? increment iterations⟩
  · rw [rewind_eq_known_iff, canRewind_iff]
  · rw [exists_rewind_eq_known_iff, canRewind_iff]

/-- Too many iterations for a signed number, although the pointer stays, and a way of `-2 ^ 63`,
which is in range while its opposite is not. -/
example : (known 0).rewind (.known 0x8000000000000000) = dynamic ∧
    (known (-0x4000000000000000)).rewind (.known 2) = dynamic ∧
    (known 3).rewind (.known 5) = known (-15) := by
  decide

end Offset

end TensorLoops
