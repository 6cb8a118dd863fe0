import Mathlib.Data.List.Perm.Basic
import TensorLoops.Proofs.Relowering

namespace TensorLoops

/-- Two lists that have the same elements in the same order for each key are the same up to order. -/
theorem perm_of_filter_eq {α κ : Type} [DecidableEq α] [DecidableEq κ] {key : α → κ}
    {xs ys : List α} (h : ∀ k, xs.filter (key · = k) = ys.filter (key · = k)) : xs.Perm ys := by
  rw [List.perm_iff_count]
  intro x
  have hcount := congrArg (List.count x) (h (key x))
  rwa [List.count_filter (by simp), List.count_filter (by simp)] at hcount

/-- The number of the loop declaration that is left out because of the problem. -/
def Problem.loopNumber? : Problem → Option UInt64
  | loopIdOutOfRange number => some number
  | duplicateLoop loop _ => some loop.toUInt64
  | _ => none

namespace Acceptance

/-- What has become of the declarations with a number. -/
def about (a : Acceptance) (key : Option UInt64) : Acceptance where
  accepted := a.accepted.filter (some ·.1.toUInt64 = key)
  problems := a.problems.filter (·.value.loopNumber? = key)

theorem first?_about (a : Acceptance) (loop : LoopId) :
    (a.about (some loop.toUInt64)).first? loop = a.first? loop := by
  unfold first? about
  rw [List.find?_filter]
  congr 2
  funext x
  by_cases hx : x.1 = loop <;> simp [hx]

/-- A declaration has no effect on what has become of other numbers, and on what has become of its
own one the same effect as if there were no others. -/
theorem about_add (a : Acceptance) (decl : Located LoopDecl) (key : Option UInt64) :
    (a.add decl).about key =
      if some decl.value.id.value = key then (a.about key).add decl else a.about key := by
  cases hid : loopId? decl.value.id.value with
  | none =>
    by_cases hkey : some decl.value.id.value = key <;>
      simp [add, hid, about, Problem.loopNumber?, hkey]
  | some loop =>
    have hnumber : decl.value.id.value = loop.toUInt64 := by
      rw [← UInt64.toNat_inj, loopId?_eq_some.mp hid, UInt32.toNat_toUInt64]
    rw [hnumber]
    by_cases hkey : some loop.toUInt64 = key
    · subst hkey
      simp only [add, hid, first?_about, if_true]
      cases a.first? loop <;> simp [about, Problem.loopNumber?]
    · simp only [add, hid, hkey, if_false]
      cases a.first? loop <;> simp [about, Problem.loopNumber?, hkey]

/-- What becomes of the declarations with a number is settled among themselves. -/
theorem about_ofLoops (decls : List (Located LoopDecl)) (key : Option UInt64) :
    (ofLoops decls).about key =
      ofLoops (decls.filter fun decl => some decl.value.id.value = key) := by
  have hfold : ∀ a : Acceptance, (decls.foldl add a).about key =
      (decls.filter fun decl => some decl.value.id.value = key).foldl add (a.about key) := by
    induction decls with
    | nil => exact fun a => rfl
    | cons decl decls ih =>
      intro a
      rw [List.foldl_cons, ih, about_add]
      by_cases hkey : some decl.value.id.value = key <;> simp [hkey]
  exact hfold .empty

/-- The order of declarations with different numbers does not matter. -/
theorem perm_ofLoops {decls decls' : List (Located LoopDecl)}
    (h : ∀ number, decls'.filter (·.value.id.value = number) =
      decls.filter (·.value.id.value = number)) :
    (ofLoops decls').accepted.Perm (ofLoops decls).accepted ∧
      (ofLoops decls').problems.Perm (ofLoops decls).problems := by
  have habout : ∀ key, (ofLoops decls').about key = (ofLoops decls).about key := by
    intro key
    rw [about_ofLoops, about_ofLoops]
    cases key with
    | none => simp
    | some number => simpa using congrArg ofLoops (h number)
  exact ⟨perm_of_filter_eq fun key => congrArg accepted (habout key),
    perm_of_filter_eq fun key => congrArg problems (habout key)⟩

end Acceptance

namespace Scope

variable {declared declared' : List LoopId}

/-- Of the declared loops it counts which ones they are. -/
theorem resolveLoop_congr (h : ∀ loop, loop ∈ declared' ↔ loop ∈ declared) :
    resolveLoop declared' = resolveLoop declared := by
  funext number
  have hcontains : ∀ loop, declared'.contains loop = declared.contains loop := by
    intro loop
    rw [Bool.eq_iff_iff, List.contains_iff_mem, List.contains_iff_mem, h]
  unfold resolveLoop
  simp only [hcontains]

theorem ofExpressions_congr (h : ∀ loop, loop ∈ declared' ↔ loop ∈ declared) :
    ofExpressions declared' = ofExpressions declared := by
  have hadd : add declared' = add declared := by
    funext s decl
    unfold add resolve
    rw [resolveLoop_congr h]
  unfold ofExpressions
  rw [hadd]

/-- Loops with different ids come to the same table in any order. -/
theorem loopTable_congr (s : Scope) {a a' : Acceptance} (h : a'.accepted.Perm a.accepted)
    (hn : a.ids.Nodup) : s.loopTable a' = s.loopTable a := by
  have hn' : a'.ids.Nodup := (h.map Prod.fst).nodup_iff.mpr hn
  refine LoopTable.eq_of_perm ?_
  exact (s.perm_loopTable hn').trans ((h.map _).trans (s.perm_loopTable hn).symm)

end Scope

/-- Whether a declaration may change places with the next one: not if both are expressions, or loops
with the same number. -/
def Item.mayPass : Item → Item → Bool
  | .expression _, .expression _ => false
  | .loop d, .loop d' => d.value.id.value != d'.value.id.value
  | _, _ => true

namespace Kernel

/-- The declarations come in another order, in which the expressions and the loops with the same
number keep theirs. -/
structure Reordered (k k' : Kernel) : Prop where
  items : k'.items.Perm k.items
  expressions : k'.expressions = k.expressions
  loops : ∀ number, k'.loops.filter (·.value.id.value = number) =
    k.loops.filter (·.value.id.value = number)

/-- Neighbouring declarations may change places. -/
theorem reordered_swap {i j : Item} (before after : List Item) (span : Span)
    (h : i.mayPass j = true) :
    Reordered ⟨before ++ i :: j :: after, span⟩ ⟨before ++ j :: i :: after, span⟩ where
  items := (List.Perm.swap i j after).append_left before
  expressions := by
    cases i <;> cases j <;> simp_all [Item.mayPass, expressions]
  loops := by
    intro number
    cases i with
    | expression d => cases j <;> simp [loops]
    | loop d =>
      cases j with
      | expression d' => simp [loops]
      | loop d' =>
        have hne : d.value.id.value ≠ d'.value.id.value := by simpa [Item.mayPass] using h
        by_cases hd : d.value.id.value = number
        · have hd' : d'.value.id.value ≠ number := fun hd' => hne (hd.trans hd'.symm)
          simp [loops, hd, hd']
        · simp [loops, List.filter_cons, hd]

end Kernel

/-- The order in which loops are declared shows in the order of the diagnostics only. -/
theorem lower_reordered {k k' : Kernel} (h : k.Reordered k') :
    (lower k').program = (lower k).program ∧
      (lower k').diagnostics.Perm (lower k).diagnostics := by
  obtain ⟨haccepted, hproblems⟩ := Acceptance.perm_ofLoops h.loops
  have hids : ∀ loop, loop ∈ (Acceptance.ofLoops k'.loops).ids ↔
      loop ∈ (Acceptance.ofLoops k.loops).ids := fun loop => (haccepted.map Prod.fst).mem_iff
  have hscope := Scope.ofExpressions_congr hids
  unfold lower Lowered.diagnostics
  dsimp only
  rw [hscope, h.expressions]
  constructor
  · rw [Scope.loopTable_congr _ haccepted (Acceptance.nodup_ids _)]
  · refine List.Perm.map _ ?_
    exact (hproblems.append_right _).append (haccepted.flatMap_right _)

/-- Two loops before an expression, and the first of them declared again after it. -/
def scattered : String :=
  "loop 1 work_amount = 4 \x7b \x7d\nloop 0 work_amount = ? \x7b \x7d\n" ++
    "%p = Parameter() : f32[4]\nloop 1 work_amount = 8 \x7b \x7d\n"

/-- Declaring the second loop first leaves the program, and the warnings change places. -/
theorem lower_reordered_scattered :
    ∃ i j rest span, (parse scattered).kernel = some ⟨i :: j :: rest, span⟩ ∧
      Kernel.Reordered ⟨i :: j :: rest, span⟩ ⟨j :: i :: rest, span⟩ ∧
      (lower ⟨j :: i :: rest, span⟩).program = (lower ⟨i :: j :: rest, span⟩).program ∧
      (lower ⟨j :: i :: rest, span⟩).diagnostics.Perm (lower ⟨i :: j :: rest, span⟩).diagnostics ∧
      (lower ⟨j :: i :: rest, span⟩).diagnostics ≠ (lower ⟨i :: j :: rest, span⟩).diagnostics := by
  have hcheck : ((parse scattered).kernel.any fun k =>
      k.items[0]?.any fun i => k.items[1]?.any fun j => i.mayPass j &&
        (lower ⟨j :: i :: k.items.drop 2, k.span⟩).diagnostics != (lower k).diagnostics) = true := by
    decide +kernel
  obtain ⟨⟨items, span⟩, hkernel, hcheck⟩ := (Option.any_eq_true _ _).mp hcheck
  obtain ⟨i, hi, hcheck⟩ := (Option.any_eq_true _ _).mp hcheck
  obtain ⟨j, hj, hcheck⟩ := (Option.any_eq_true _ _).mp hcheck
  obtain ⟨hpass, hdiffer⟩ := (Bool.and_eq_true _ _).mp hcheck
  rcases items with _ | ⟨first, _ | ⟨second, rest⟩⟩
  · cases hi
  · cases hj
  · cases hi
    cases hj
    have hreordered := Kernel.reordered_swap [] rest span hpass
    obtain ⟨hprogram, hdiagnostics⟩ := lower_reordered hreordered
    exact ⟨i, j, rest, span, hkernel, hreordered, hprogram, hdiagnostics, by simpa using hdiffer⟩

end TensorLoops
