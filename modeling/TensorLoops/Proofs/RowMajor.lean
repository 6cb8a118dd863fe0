import Mathlib.Tactic.Ring
import TensorLoops.Proofs.Displacement

namespace TensorLoops

/-- The extents are these numbers. Each of them is below `2 ^ 63`, and so is the product of the
first few, however many these are. -/
structure Multiplies (extents : List Extent) (ns : List UInt64) : Prop where
  known : extents = ns.map .known
  factors : ∀ n ∈ ns, n.toNat < 2 ^ 63
  products : ∀ front, front <+: ns → (front.map UInt64.toNat).prod < 2 ^ 63

/-- A product of known extents comes out unless a factor or a running product is too large. -/
theorem runningProduct_known {sofar m : Nat} {ns : List UInt64} (h : sofar < 2 ^ 63) :
    runningProduct sofar (ns.map .known) = .exact m ↔
      m = sofar * (ns.map UInt64.toNat).prod ∧ (∀ n ∈ ns, n.toNat < 2 ^ 63) ∧
        ∀ front, front <+: ns → sofar * (front.map UInt64.toNat).prod < 2 ^ 63 := by
  induction ns generalizing sofar with
  | nil => simpa [runningProduct, eq_comm] using fun _ => h
  | cons n ns ih =>
    rw [List.map_cons, runningProduct]
    have hfronts : (∀ front, front <+: n :: ns → sofar * (front.map UInt64.toNat).prod < 2 ^ 63) ↔
        ∀ front, front <+: ns → sofar * n.toNat * (front.map UInt64.toNat).prod < 2 ^ 63 := by
      constructor
      · intro hall front hfront
        have hcons := hall (n :: front) (List.cons_prefix_cons.mpr ⟨rfl, hfront⟩)
        rwa [List.map_cons, List.prod_cons, ← mul_assoc] at hcons
      · intro hall front hfront
        rcases List.prefix_cons_iff.mp hfront with rfl | ⟨rest, rfl, hrest⟩
        · simpa using h
        · rw [List.map_cons, List.prod_cons, ← mul_assoc]
          exact hall rest hrest
    split
    · rename_i hn
      rw [ih hn.2, hfronts, List.forall_mem_cons, List.map_cons, List.prod_cons, mul_assoc]
      simp [hn.1]
    · rename_i hn
      constructor
      · intro hoverflow
        cases hoverflow
      · rintro ⟨-, hfactors, hall⟩
        have hproduct := hall [n] (by simp)
        rw [List.map_singleton, List.prod_singleton] at hproduct
        exact absurd ⟨hfactors n List.mem_cons_self, hproduct⟩ hn

/-- The stride is the product of the extents after the axis, as long as that can be computed from
the left. -/
theorem strideAfter_eq_known_iff {shape : List Extent} {axis : Nat} {s : Int64} :
    strideAfter axis shape = .known s ↔
      ∃ ns, Multiplies (shape.drop (axis + 1)) ns ∧ s.toInt = (ns.map UInt64.toNat).prod := by
  constructor
  · intro h
    unfold strideAfter at h
    split at h
    · rename_i m hm
      obtain ⟨ns, hns, -⟩ := runningProduct_eq_exact hm
      rw [hns, runningProduct_known (by decide)] at hm
      simp only [one_mul] at hm
      obtain ⟨rfl, hfactors, hproducts⟩ := hm
      exact ⟨ns, ⟨hns, hfactors, hproducts⟩, Offset.ofInt_eq_known_iff.mp h⟩
    · cases h
    · cases h
  · rintro ⟨ns, ⟨hns, hfactors, hproducts⟩, hs⟩
    have hexact : runningProduct 1 (ns.map .known) = .exact (ns.map UInt64.toNat).prod := by
      rw [runningProduct_known (by decide)]
      simpa only [one_mul, true_and] using ⟨hfactors, hproducts⟩
    unfold strideAfter
    rw [hns, hexact]
    exact Offset.ofInt_eq_known_iff.mpr hs

theorem Multiplies.exists_strideAfter {shape : List Extent} {axis : Nat} {ns : List UInt64}
    (h : Multiplies (shape.drop (axis + 1)) ns) : ∃ s, strideAfter axis shape = .known s := by
  have hproduct := h.products ns List.prefix_rfl
  have hrange : Offset.InRange (ns.map UInt64.toNat).prod := by
    unfold Offset.InRange
    omega
  obtain ⟨s, hs⟩ := Offset.inRange_iff.mp hrange
  exact ⟨s, strideAfter_eq_known_iff.mpr ⟨ns, h, hs⟩⟩

/-- The place that an element has in its tensor, when its place by the indices before is `place`:
the last index runs fastest. -/
def placeFrom (place : Nat) : List Nat → List Nat → Nat
  | n :: extents, i :: index => placeFrom (place * n + i) extents index
  | _, _ => place

/-- The place of an element among those of a tensor with these extents. -/
def rowMajor (extents index : List Nat) : Nat := placeFrom 0 extents index

section RowMajor

variable {extents index : List Nat} (h : index.length = extents.length)
include h

/-- What is added to an index counts once for each combination of the indices after it. -/
theorem placeFrom_add (place d : Nat) :
    placeFrom (place + d) extents index = placeFrom place extents index + d * extents.prod := by
  induction extents generalizing index place d with
  | nil => simp [placeFrom]
  | cons n extents ih =>
    obtain ⟨i, index, rfl⟩ := List.exists_cons_of_length_eq_add_one h
    have hplace : (place + d) * n + i = place * n + i + d * n := by ring
    rw [placeFrom, placeFrom, hplace, ih (Nat.succ.inj h), List.prod_cons, mul_assoc]

theorem placeFrom_modify {axis : Nat} (haxis : axis < extents.length) (place : Nat) :
    placeFrom place extents (index.modify axis (· + 1)) =
      placeFrom place extents index + (extents.drop (axis + 1)).prod := by
  induction extents generalizing index axis place with
  | nil => cases haxis
  | cons n extents ih =>
    obtain ⟨i, index, rfl⟩ := List.exists_cons_of_length_eq_add_one h
    have hindex : index.length = extents.length := Nat.succ.inj h
    cases axis with
    | zero =>
      rw [List.modify_zero_cons, placeFrom, placeFrom, ← Nat.add_assoc, placeFrom_add hindex,
        one_mul]
      rfl
    | succ axis =>
      rw [List.modify_succ_cons, placeFrom, placeFrom, List.drop_succ_cons]
      exact ih hindex (Nat.lt_of_succ_lt_succ haxis) _

/-- One step along an axis passes as many elements as there are combinations of the indices after
it. -/
theorem rowMajor_modify {axis : Nat} (haxis : axis < extents.length) :
    rowMajor extents (index.modify axis (· + 1)) =
      rowMajor extents index + (extents.drop (axis + 1)).prod :=
  placeFrom_modify h haxis 0

end RowMajor

/-- The stride of an axis is known exactly when the extents after it are known and neither they nor
their running products from the left reach `2 ^ 63`; it is their product, and dynamic otherwise. In
a tensor without dynamic extents, an element whose index along the axis is raised by one lies that
many places further on. -/
theorem strideAfter_exact {shape : List Extent} {axis : Nat} (haxis : axis < shape.length) :
    (∀ s, strideAfter axis shape = .known s ↔
      ∃ ns, Multiplies (shape.drop (axis + 1)) ns ∧ s.toInt = (ns.map UInt64.toNat).prod) ∧
    (strideAfter axis shape = .dynamic ↔ ¬ ∃ ns, Multiplies (shape.drop (axis + 1)) ns) ∧
    ∀ ms : List UInt64, shape = ms.map .known → ∀ s, strideAfter axis shape = .known s →
      ∀ index : List Nat, index.length = shape.length →
        (rowMajor (ms.map UInt64.toNat) (index.modify axis (· + 1)) : Int) =
          rowMajor (ms.map UInt64.toNat) index + s.toInt := by
  refine ⟨fun s => strideAfter_eq_known_iff, ?_, ?_⟩
  · constructor
    · rintro hdynamic ⟨ns, hns⟩
      obtain ⟨s, hs⟩ := hns.exists_strideAfter
      rw [hdynamic] at hs
      cases hs
    · intro hnone
      cases hstride : strideAfter axis shape with
      | dynamic => rfl
      | known s =>
        obtain ⟨ns, hns, -⟩ := strideAfter_eq_known_iff.mp hstride
        exact absurd ⟨ns, hns⟩ hnone
  · rintro ms rfl s hs index hindex
    obtain ⟨ns, hns, hproduct⟩ := strideAfter_eq_known_iff.mp hs
    have hlast : ns = ms.drop (axis + 1) := by
      have hknown := hns.known
      rw [← List.map_drop] at hknown
      exact (List.map_injective_iff.mpr (fun m n h => Extent.known.inj h) hknown).symm
    rw [List.length_map] at hindex haxis
    rw [rowMajor_modify (by rwa [List.length_map]) (by rwa [List.length_map]), ← List.map_drop,
      ← hlast, hproduct, Int.natCast_add]

/-- Five planes of `2 ^ 31` rows that have `2 ^ 31` elements each. -/
def wideShape : List Extent := [.known 5, .known 0x80000000, .known 0x80000000]

theorem strideAfter_exact_wideShape :
    0 < wideShape.length ∧ strideAfter 0 wideShape = .known 0x4000000000000000 ∧
      (rowMajor [5, 0x80000000, 0x80000000] ([3, 1, 7].modify 0 (· + 1)) : Int) =
        rowMajor [5, 0x80000000, 0x80000000] [3, 1, 7] + 0x4000000000000000 := by
  have haxis : 0 < wideShape.length := by decide
  have hstride : strideAfter 0 wideShape = .known 0x4000000000000000 := by decide
  obtain ⟨-, -, hmoves⟩ := strideAfter_exact haxis
  exact ⟨haxis, hstride, hmoves [5, 0x80000000, 0x80000000] rfl _ hstride [3, 1, 7] rfl⟩

/-- An extent that is too large, and an extent of zero behind and in front of a product that is. -/
example : strideAfter 0 [.known 1, .known 0x8000000000000000] = .dynamic ∧
    strideAfter 0 [.known 1, .known 0x100000000, .known 0x80000000, .known 0] = .dynamic ∧
    strideAfter 0 [.known 1, .known 0, .known 0x100000000, .known 0x80000000] = .known 0 := by
  decide

end TensorLoops
