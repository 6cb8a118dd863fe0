import Mathlib.Data.List.Forall2
import TensorLoops.Attempt

namespace TensorLoops

/-- Each element of the second list is related to one of the first. -/
theorem forall₂_mem_right {α β : Type} {R : α → β → Prop} {xs : List α} {ys : List β}
    (h : List.Forall₂ R xs ys) {y : β} (hy : y ∈ ys) : ∃ x ∈ xs, R x y := by
  induction h with
  | nil => cases hy
  | cons hr _ ih =>
    rcases List.mem_cons.mp hy with rfl | hm
    · exact ⟨_, List.mem_cons_self, hr⟩
    · obtain ⟨x, hx, hxy⟩ := ih hm
      exact ⟨x, List.mem_cons_of_mem _ hx, hxy⟩

/-- Relations between neighbouring lists are put together. -/
theorem forall₂_comp {α β γ : Type} {R : α → β → Prop} {S : β → γ → Prop} {T : α → γ → Prop}
    {xs : List α} {ys : List β} {zs : List γ} (h : List.Forall₂ R xs ys)
    (h' : List.Forall₂ S ys zs) (hT : ∀ x y z, R x y → S y z → T x z) :
    List.Forall₂ T xs zs := by
  induction h generalizing zs with
  | nil =>
    cases h'
    exact .nil
  | cons hxy _ ih =>
    rcases h' with _ | ⟨hyz, hrest⟩
    exact .cons (hT _ _ _ hxy hyz) (ih hrest)

namespace Attempt

variable {σ τ α : Type}

/-- The attempt succeeds and leaves `s`. -/
def Reaches (a : Attempt σ Unit) (s : σ) : Prop := a.result = .ok () ∧ a.state = s

theorem reaches_state {a : Attempt σ Unit} (h : a.result = .ok ()) : a.Reaches a.state := ⟨h, rfl⟩

@[simp] theorem reaches_done {s t : σ} {events : List Event} :
    (done s () events).Reaches t ↔ s = t := by
  simp [Reaches, done]

@[simp] theorem not_reaches_fail {s t : σ} {e : LoopError} {events : List Event} :
    ¬ (fail s e events : Attempt σ Unit).Reaches t := by
  simp [Reaches, fail]

@[simp] theorem reaches_after {a : Attempt σ Unit} {events : List Event} {s : σ} :
    (a.after events).Reaches s ↔ a.Reaches s := Iff.rfl

theorem reaches_mapState {f : σ → τ} {a : Attempt σ Unit} {t : τ} :
    (a.mapState f).Reaches t ↔ ∃ s, a.Reaches s ∧ f s = t := by
  constructor
  · intro h
    obtain ⟨hr, hs⟩ := h
    exact ⟨a.state, reaches_state hr, hs⟩
  · intro h
    obtain ⟨s, ⟨hr, rfl⟩, hs⟩ := h
    exact ⟨hr, hs⟩

theorem reaches_andThen {a : Attempt σ Unit} {f : σ → Attempt σ Unit} {s : σ} :
    (a.andThen f).Reaches s ↔ ∃ t, a.Reaches t ∧ (f t).Reaches s := by
  unfold andThen
  cases hr : a.result with
  | ok u =>
    constructor
    · intro h
      exact ⟨a.state, reaches_state hr, h⟩
    · intro h
      obtain ⟨t, ⟨-, rfl⟩, h⟩ := h
      exact h
  | error e =>
    constructor
    · intro h
      obtain ⟨h, -⟩ := h
      cases h
    · intro h
      obtain ⟨t, ⟨h, -⟩, -⟩ := h
      rw [hr] at h
      cases h

/-- A list of attempts succeeds when each of them does. -/
theorem reaches_each {f : σ → Attempt σ Unit} {xs ys : List σ} :
    (each f xs).Reaches ys ↔ List.Forall₂ (fun x y => (f x).Reaches y) xs ys := by
  induction xs generalizing ys with
  | nil => simp [each, eq_comm]
  | cons x xs ih =>
    unfold each
    cases hr : (f x).result with
    | ok u =>
      rw [reaches_after, reaches_mapState]
      constructor
      · intro h
        obtain ⟨zs, hz, rfl⟩ := h
        exact .cons (reaches_state hr) (ih.mp hz)
      · intro h
        rcases h with _ | ⟨⟨-, rfl⟩, hz⟩
        exact ⟨_, ih.mpr hz, rfl⟩
    | error e =>
      constructor
      · intro h
        obtain ⟨h, -⟩ := h
        cases h
      · intro h
        rcases h with _ | ⟨⟨h, -⟩, -⟩
        rw [hr] at h
        cases h

/-- A list of attempts succeeds or fails as one of them does. -/
theorem result_each (f : σ → Attempt σ Unit) (xs : List σ) :
    (each f xs).result = .ok () ∨
      ∃ x ∈ xs, ∃ e, (f x).result = .error e ∧ (each f xs).result = .error e := by
  induction xs with
  | nil => exact .inl rfl
  | cons x xs ih =>
    unfold each
    cases hx : (f x).result with
    | error e => exact .inr ⟨x, List.mem_cons_self, e, hx, rfl⟩
    | ok u =>
      rcases ih with hok | ⟨y, hy, e, hf, he⟩
      · exact .inl hok
      · exact .inr ⟨y, List.mem_cons_of_mem _ hy, e, hf, he⟩

/-- A list of attempts relates each element to the one in its place as the attempt on it does,
however far it comes. -/
theorem forall₂_each {R : σ → σ → Prop} (hrefl : ∀ x, R x x) {f : σ → Attempt σ Unit}
    {xs : List σ} (h : ∀ x ∈ xs, R x (f x).state) : List.Forall₂ R xs (each f xs).state := by
  induction xs with
  | nil => exact .nil
  | cons x xs ih =>
    obtain ⟨hx, hrest⟩ := List.forall_mem_cons.mp h
    unfold each
    cases (f x).result with
    | ok u => exact .cons hx (ih hrest)
    | error e => exact .cons hx (List.forall₂_same.mpr fun y _ => hrefl y)

/-- What an attempt and its continuation keep is kept by both in a row. -/
theorem andThen_keeps {a : Attempt σ Unit} {f : σ → Attempt σ α} {s : σ} (view : σ → τ)
    (ha : view a.state = view s) (hf : ∀ t, view (f t).state = view t) :
    view (a.andThen f).state = view s := by
  unfold andThen
  cases a.result with
  | ok u => exact (hf a.state).trans ha
  | error e => exact ha

/-- An attempt and its continuation relate states as each of them does. -/
theorem andThen_relates {R : σ → σ → Prop} (htrans : ∀ {x y z}, R x y → R y z → R x z)
    {a : Attempt σ Unit} {f : σ → Attempt σ α} {s : σ} (ha : R s a.state)
    (hf : ∀ t, R t (f t).state) : R s (a.andThen f).state := by
  unfold andThen
  cases a.result with
  | ok u => exact htrans ha (hf a.state)
  | error e => exact ha

end Attempt

namespace LoopRecord

/-- All ports of a record are treated with success. -/
theorem reaches_eachPort {r r' : LoopRecord} {f : LoopPort → Attempt LoopPort Unit} :
    (r.eachPort f).Reaches r' ↔
      r'.workAmount = r.workAmount ∧
        List.Forall₂ (fun p q => (f p).Reaches q) r.entries r'.entries ∧
        List.Forall₂ (fun p q => (f p).Reaches q) r.exits r'.exits := by
  unfold eachPort
  simp only [Attempt.reaches_andThen, Attempt.reaches_mapState, Attempt.reaches_each]
  constructor
  · intro h
    obtain ⟨_, ⟨entries, he, rfl⟩, exits, hx, rfl⟩ := h
    exact ⟨rfl, he, hx⟩
  · intro h
    obtain ⟨hw, he, hx⟩ := h
    refine ⟨_, ⟨r'.entries, he, rfl⟩, r'.exits, hx, ?_⟩
    cases r'
    cases hw
    rfl

/-- When no port fails, the record does not. -/
theorem result_eachPort {r : LoopRecord} {f : LoopPort → Attempt LoopPort Unit}
    (h : ∀ p ∈ r.ports, (f p).result = .ok ()) : (r.eachPort f).result = .ok () := by
  have heach : ∀ ps : List LoopPort, (∀ p ∈ ps, p ∈ r.ports) →
      (Attempt.each f ps).result = .ok () := by
    intro ps hps
    rcases Attempt.result_each f ps with hok | ⟨p, hp, e, he, -⟩
    · exact hok
    · rw [h p (hps p hp)] at he
      cases he
  unfold eachPort Attempt.andThen
  simp only [Attempt.mapState, heach r.entries fun p hp => List.mem_append_left _ hp]
  exact heach r.exits fun p hp => List.mem_append_right _ hp

theorem forall₂_ports {r r' : LoopRecord} {R : LoopPort → LoopPort → Prop}
    (he : List.Forall₂ R r.entries r'.entries) (hx : List.Forall₂ R r.exits r'.exits) :
    List.Forall₂ R r.ports r'.ports := List.rel_append he hx

end LoopRecord

namespace LoopTable

/-- A table succeeds or fails as one of its records does. -/
theorem result_each (t : LoopTable) (f : LoopId → LoopRecord → Attempt LoopRecord Unit) :
    (t.each f).result = .ok () ∨
      ∃ x ∈ t.entries, ∃ e, (f x.1 x.2).result = .error e ∧ (t.each f).result = .error e :=
  Attempt.result_each (fun x : LoopId × LoopRecord => (f x.1 x.2).mapState (x.1, ·)) t.entries

/-- All records of a table are treated with success. -/
theorem reaches_each {t t' : LoopTable} {f : LoopId → LoopRecord → Attempt LoopRecord Unit} :
    (t.each f).Reaches t' ↔
      List.Forall₂ (fun x y => y.1 = x.1 ∧ (f x.1 x.2).Reaches y.2) t.entries t'.entries := by
  have hrel : (t.each f).Reaches t' ↔
      (Attempt.each (fun x => (f x.1 x.2).mapState (x.1, ·)) t.entries).Reaches t'.entries :=
    and_congr Iff.rfl LoopTable.ext_iff
  rw [hrel, Attempt.reaches_each]
  have hstep : ∀ x y : LoopId × LoopRecord,
      ((f x.1 x.2).mapState (x.1, ·)).Reaches y ↔ y.1 = x.1 ∧ (f x.1 x.2).Reaches y.2 := by
    intro x y
    rw [Attempt.reaches_mapState]
    constructor
    · intro h
      obtain ⟨r, hr, rfl⟩ := h
      exact ⟨rfl, hr⟩
    · intro h
      obtain ⟨hid, hr⟩ := h
      exact ⟨y.2, hr, by rw [← hid]⟩
  simp only [hstep]

end LoopTable

end TensorLoops
