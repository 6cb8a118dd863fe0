import Mathlib.Data.List.Perm.Basic
import TensorLoops.Extent

namespace TensorLoops

namespace Extent

/-- Merging the two extents yields the second one. -/
def GivesWay (e m : Extent) : Prop := e.merge? m = some m

instance (e m : Extent) : Decidable (e.GivesWay m) := inferInstanceAs (Decidable (_ = _))

/-- The two extents do not merge. -/
def Clash (a b : Extent) : Prop := a.merge? b = none

instance (a b : Extent) : Decidable (a.Clash b) := inferInstanceAs (Decidable (_ = _))

theorem givesWay_iff {e m : Extent} : e.GivesWay m ↔ m = dynamic ∨ e = known 1 ∨ e = m := by
  unfold GivesWay
  cases m with
  | dynamic => simp
  | known y =>
    cases e with
    | dynamic => simp
    | known x =>
      simp only [merge?, reduceCtorEq, false_or, known.injEq]
      by_cases hxy : x = y
      · simp [hxy]
      · by_cases hx : x = 1
        · simp [hx]
        · by_cases hy : y = 1 <;> simp [hxy, hx, hy]

theorem givesWay_refl (e : Extent) : e.GivesWay e := merge?_self e

theorem one_givesWay (e : Extent) : (known 1).GivesWay e := givesWay_iff.mpr (.inr (.inl rfl))

theorem GivesWay.trans {a b c : Extent} (hab : a.GivesWay b) (hbc : b.GivesWay c) :
    a.GivesWay c := by
  rw [givesWay_iff] at *
  rcases hab with rfl | rfl | rfl
  · rcases hbc with rfl | hb | rfl
    · exact .inl rfl
    · cases hb
    · exact .inl rfl
  · exact .inr (.inl rfl)
  · exact hbc

theorem GivesWay.antisymm {a b : Extent} (hab : a.GivesWay b) (hba : b.GivesWay a) : a = b := by
  have hmerge := merge?_comm a b
  rw [hab, hba] at hmerge
  exact (Option.some.inj hmerge).symm

/-- An extent that gives way to a number is one or this number. -/
theorem givesWay_known {e : Extent} {n : UInt64} :
    e.GivesWay (known n) ↔ e = known 1 ∨ e = known n := by
  simp [givesWay_iff]

/-- Of two extents that merge, one gives way and the other one is the result. -/
theorem merge?_eq_some {a b m : Extent} :
    a.merge? b = some m ↔ m = b ∧ a.GivesWay b ∨ m = a ∧ b.GivesWay a := by
  constructor
  · intro h
    have hcases : m = b ∨ m = a := by
      cases a with
      | dynamic => exact .inr (Option.some.inj h).symm
      | known x =>
        cases b with
        | dynamic => exact .inl (Option.some.inj h).symm
        | known y =>
          dsimp only [merge?] at h
          split at h
          · exact .inr (Option.some.inj h).symm
          · split at h
            · exact .inl (Option.some.inj h).symm
            · split at h
              · exact .inr (Option.some.inj h).symm
              · cases h
    rcases hcases with rfl | rfl
    · exact .inl ⟨rfl, h⟩
    · exact .inr ⟨rfl, (merge?_comm _ _).trans h⟩
  · intro h
    rcases h with ⟨rfl, hab⟩ | ⟨rfl, hba⟩
    · exact hab
    · exact (merge?_comm _ _).trans hba

/-- Two extents clash unless one of them gives way. -/
theorem clash_iff {a b : Extent} : a.Clash b ↔ ¬ a.GivesWay b ∧ ¬ b.GivesWay a := by
  unfold Clash
  rw [Option.eq_none_iff_forall_ne_some]
  constructor
  · intro h
    exact ⟨fun hab => h b (merge?_eq_some.mpr (.inl ⟨rfl, hab⟩)),
      fun hba => h a (merge?_eq_some.mpr (.inr ⟨rfl, hba⟩))⟩
  · intro h m hm
    rcases merge?_eq_some.mp hm with ⟨-, hab⟩ | ⟨-, hba⟩
    · exact h.1 hab
    · exact h.2 hba

/-- Only two different numbers clash, of which neither is one. -/
theorem clash_iff_known {a b : Extent} :
    a.Clash b ↔ ∃ x y, a = known x ∧ b = known y ∧ x ≠ y ∧ x ≠ 1 ∧ y ≠ 1 := by
  rw [clash_iff]
  cases a with
  | dynamic => simp [givesWay_iff]
  | known x =>
    cases b with
    | dynamic => simp [givesWay_iff]
    | known y =>
      simp only [givesWay_iff, reduceCtorEq, known.injEq, false_or, not_or]
      constructor
      · intro h
        obtain ⟨⟨hx, hxy⟩, hy, -⟩ := h
        exact ⟨x, y, rfl, rfl, hxy, hx, hy⟩
      · intro h
        obtain ⟨_, _, rfl, rfl, hxy, hx, hy⟩ := h
        exact ⟨⟨hx, hxy⟩, hy, Ne.symm hxy⟩

theorem not_clash_of_one {a b : Extent} (h : a = known 1 ∨ b = known 1) : ¬ a.Clash b := by
  rw [clash_iff]
  rcases h with rfl | rfl
  · exact fun hc => hc.1 (one_givesWay b)
  · exact fun hc => hc.2 (one_givesWay a)

/-- Extents that give way to one number do not clash. -/
theorem not_clash_of_known {a b : Extent} {n : UInt64} (ha : a.GivesWay (known n))
    (hb : b.GivesWay (known n)) : ¬ a.Clash b := by
  rcases givesWay_known.mp ha with rfl | rfl
  · exact not_clash_of_one (.inl rfl)
  · exact fun hc => (clash_iff.mp hc).2 hb

/-- A dynamic extent stands beside two extents that clash. It hides the clash from whatever is
merged after it. -/
def Ambiguous (es : List Extent) : Prop := dynamic ∈ es ∧ ∃ a ∈ es, ∃ b ∈ es, a.Clash b

instance (es : List Extent) : Decidable (Ambiguous es) := inferInstanceAs (Decidable (_ ∧ _))

theorem Ambiguous.mono {es fs : List Extent} (h : Ambiguous es) (hsub : es ⊆ fs) :
    Ambiguous fs := by
  obtain ⟨hd, a, ha, b, hb, hab⟩ := h
  exact ⟨hsub hd, a, hsub ha, b, hsub hb, hab⟩

/-- An extent of one does not take part in a clash. -/
theorem Ambiguous.of_cons_one {es : List Extent} (h : Ambiguous (known 1 :: es)) :
    Ambiguous es := by
  obtain ⟨hd, a, ha, b, hb, hab⟩ := h
  have hmem : ∀ {e : Extent}, e ∈ known 1 :: es → e ≠ known 1 → e ∈ es :=
    fun he hne => (List.mem_cons.mp he).resolve_left hne
  exact ⟨hmem hd (by decide), a, hmem ha fun h1 => not_clash_of_one (.inl h1) hab,
    b, hmem hb fun h1 => not_clash_of_one (.inr h1) hab, hab⟩

end Extent

/-- A way of merging extents two by two. -/
inductive Grouping where
  | leaf (e : Extent)
  | node (l r : Grouping)
  deriving DecidableEq, Repr

namespace Grouping

open Extent

/-- The extents from left to right. -/
def leaves : Grouping → List Extent
  | leaf e => [e]
  | node l r => l.leaves ++ r.leaves

/-- The merged extent. There is none as soon as two extents on the way clash. -/
def merged : Grouping → Option Extent
  | leaf e => some e
  | node l r => l.merged.bind fun a => r.merged.bind fun b => a.merge? b

/-- Merges more extents one after the other, from the left. -/
def chain (t : Grouping) : List Extent → Grouping
  | [] => t
  | e :: es => (node t (leaf e)).chain es

@[simp] theorem leaves_chain (t : Grouping) (es : List Extent) :
    (t.chain es).leaves = t.leaves ++ es := by
  induction es generalizing t with
  | nil => simp [chain]
  | cons e es ih => simp [chain, ih, leaves]

/-- The merged extent is one of the leaves, and all leaves give way to it. -/
theorem merged_eq_some {t : Grouping} {m : Extent} (h : t.merged = some m) :
    m ∈ t.leaves ∧ ∀ e ∈ t.leaves, e.GivesWay m := by
  induction t generalizing m with
  | leaf e =>
    cases h
    simp [leaves, givesWay_refl]
  | node l r ihl ihr =>
    obtain ⟨a, ha, hr⟩ := Option.bind_eq_some_iff.mp h
    obtain ⟨b, hb, hm⟩ := Option.bind_eq_some_iff.mp hr
    obtain ⟨hal, hla⟩ := ihl ha
    obtain ⟨hbr, hrb⟩ := ihr hb
    rcases merge?_eq_some.mp hm with ⟨rfl, hab⟩ | ⟨rfl, hba⟩
    · refine ⟨List.mem_append_right _ hbr, fun e he => ?_⟩
      rcases List.mem_append.mp he with he | he
      · exact (hla e he).trans hab
      · exact hrb e he
    · refine ⟨List.mem_append_left _ hal, fun e he => ?_⟩
      rcases List.mem_append.mp he with he | he
      · exact hla e he
      · exact (hrb e he).trans hba

/-- Leaves of which no two clash can be merged. -/
theorem exists_merged {t : Grouping} (h : ∀ a ∈ t.leaves, ∀ b ∈ t.leaves, ¬ a.Clash b) :
    ∃ m, t.merged = some m := by
  induction t with
  | leaf e => exact ⟨e, rfl⟩
  | node l r ihl ihr =>
    obtain ⟨a, ha⟩ := ihl fun x hx y hy =>
      h x (List.mem_append_left _ hx) y (List.mem_append_left _ hy)
    obtain ⟨b, hb⟩ := ihr fun x hx y hy =>
      h x (List.mem_append_right _ hx) y (List.mem_append_right _ hy)
    have hab := h a (List.mem_append_left _ (merged_eq_some ha).1)
      b (List.mem_append_right _ (merged_eq_some hb).1)
    obtain ⟨m, hm⟩ := Option.ne_none_iff_exists'.mp hab
    exact ⟨m, by simp [merged, ha, hb, hm]⟩

/-- Results of merging the same extents are equal. -/
theorem merged_unique {s t : Grouping} (hleaves : s.leaves.Perm t.leaves) {m n : Extent}
    (hs : s.merged = some m) (ht : t.merged = some n) : m = n := by
  obtain ⟨hm, hsm⟩ := merged_eq_some hs
  obtain ⟨hn, htn⟩ := merged_eq_some ht
  exact (htn m (hleaves.mem_iff.mp hm)).antisymm (hsm n (hleaves.mem_iff.mpr hn))

/-- What can be merged and is not dynamic has no clash. -/
theorem not_clash_of_merged {t : Grouping} {n : UInt64} (h : t.merged = some (known n)) :
    ∀ a ∈ t.leaves, ∀ b ∈ t.leaves, ¬ a.Clash b := by
  obtain ⟨-, hall⟩ := merged_eq_some h
  exact fun a ha b hb => not_clash_of_known (hall a ha) (hall b hb)

/-- Unless a dynamic extent hides a clash, extents that can be merged in one grouping can be merged
in any other. -/
theorem exists_merged_of_perm {s t : Grouping} (hleaves : s.leaves.Perm t.leaves)
    (h : ¬ Ambiguous s.leaves) {m : Extent} (hs : s.merged = some m) : ∃ n, t.merged = some n := by
  have hclash : ∀ a ∈ s.leaves, ∀ b ∈ s.leaves, ¬ a.Clash b := by
    cases m with
    | known n => exact not_clash_of_merged hs
    | dynamic => exact fun a ha b hb hab => h ⟨(merged_eq_some hs).1, a, ha, b, hb, hab⟩
  exact exists_merged fun a ha b hb =>
    hclash a (hleaves.mem_iff.mpr ha) b (hleaves.mem_iff.mpr hb)

/-- Unless a dynamic extent hides a clash, all groupings of the same extents come to the same. -/
theorem merged_eq_of_perm {s t : Grouping} (hleaves : s.leaves.Perm t.leaves)
    (h : ¬ Ambiguous s.leaves) : s.merged = t.merged := by
  have ht : ¬ Ambiguous t.leaves := fun ha => h (ha.mono hleaves.symm.subset)
  cases hs : s.merged with
  | some m =>
    obtain ⟨n, hn⟩ := exists_merged_of_perm hleaves h hs
    rw [hn, merged_unique hleaves hs hn]
  | none =>
    cases hn : t.merged with
    | none => rfl
    | some n =>
      obtain ⟨m, hm⟩ := exists_merged_of_perm hleaves.symm ht hn
      rw [hs] at hm
      cases hm

/-- After a dynamic extent nothing clashes any more. -/
theorem merged_chain_dynamic {t : Grouping} (h : t.merged = some dynamic) (es : List Extent) :
    (t.chain es).merged = some dynamic := by
  induction es generalizing t with
  | nil => exact h
  | cons e es ih => exact ih (by simp [merged, h])

/-- After a clash there is no result any more. -/
theorem merged_chain_none {t : Grouping} (h : t.merged = none) (es : List Extent) :
    (t.chain es).merged = none := by
  induction es generalizing t with
  | nil => exact h
  | cons e es ih => exact ih (by simp [merged, h])

/-- Merging comes to a number when each extent is one or this number, and the number is one of
them. -/
theorem merged_eq_known {t : Grouping} {n : UInt64} : t.merged = some (known n) ↔
    (∀ e ∈ t.leaves, e = known 1 ∨ e = known n) ∧ known n ∈ t.leaves := by
  constructor
  · intro h
    obtain ⟨hmem, hall⟩ := merged_eq_some h
    exact ⟨fun e he => givesWay_known.mp (hall e he), hmem⟩
  · intro h
    obtain ⟨hall, hmem⟩ := h
    have hgives : ∀ e ∈ t.leaves, e.GivesWay (known n) :=
      fun e he => givesWay_known.mpr (hall e he)
    obtain ⟨m, hm⟩ := exists_merged fun a ha b hb => not_clash_of_known (hgives a ha) (hgives b hb)
    obtain ⟨hm_mem, hm_all⟩ := merged_eq_some hm
    rw [hm, (hgives m hm_mem).antisymm (hm_all _ hmem)]

/-- Extents that clash, with a dynamic one beside them, can be merged in one order and not in
another. -/
theorem orders_of_ambiguous {es : List Extent} (h : Ambiguous es) :
    (∃ fs, (dynamic :: fs).Perm es) ∧ ∃ a b fs, (a :: b :: fs).Perm es ∧ a.Clash b := by
  obtain ⟨hd, a, ha, b, hb, hab⟩ := h
  refine ⟨⟨_, (List.perm_cons_erase hd).symm⟩, a, b, (es.erase a).erase b, ?_, hab⟩
  have hne : b ≠ a := by
    rintro rfl
    exact (clash_iff.mp hab).1 (givesWay_refl b)
  have hb' : b ∈ es.erase a := (List.mem_erase_of_ne hne).mpr hb
  exact ((List.perm_cons_erase hb').symm.cons a).trans (List.perm_cons_erase ha).symm

end Grouping

end TensorLoops
