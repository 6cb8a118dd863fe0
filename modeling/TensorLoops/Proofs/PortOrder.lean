import TensorLoops.Proofs.WalkedExtents

namespace TensorLoops

/-- A list can be put in order so that what is taken from it comes in a given order. -/
theorem exists_perm_filterMap {α β : Type} {f : α → Option β} {xs : List α} {ys : List β}
    (h : ys.Perm (xs.filterMap f)) : ∃ xs' : List α, xs'.Perm xs ∧ xs'.filterMap f = ys := by
  induction xs generalizing ys with
  | nil => exact ⟨[], .refl _, h.symm.nil_eq⟩
  | cons x xs ih =>
    cases hx : f x with
    | none =>
      rw [List.filterMap_cons_none hx] at h
      obtain ⟨xs', hperm, hys⟩ := ih h
      exact ⟨x :: xs', hperm.cons x, by rw [List.filterMap_cons_none hx, hys]⟩
    | some y =>
      rw [List.filterMap_cons_some hx] at h
      obtain ⟨us, vs, rfl⟩ := List.append_of_mem (h.mem_iff.mpr List.mem_cons_self)
      obtain ⟨xs', hperm, hys⟩ := ih ((List.perm_middle.symm.trans h).cons_inv)
      obtain ⟨ps, qs, rfl, hus, hvs⟩ := List.filterMap_eq_append_iff.mp hys
      refine ⟨ps ++ x :: qs, List.perm_middle.trans (hperm.cons x), ?_⟩
      rw [List.filterMap_append, List.filterMap_cons_some hx, hus, hvs]

namespace LoopRecord

theorem movingPorts_perm {r r' : LoopRecord} (h : r'.ports.Perm r.ports) :
    r'.movingPorts.Perm r.movingPorts := h.filter _

theorem extents_perm {r r' : LoopRecord} (h : r'.ports.Perm r.ports) (g : Graph) :
    (r'.extents g).Perm (r.extents g) := (movingPorts_perm h).filterMap _

theorem walks_perm {r r' : LoopRecord} (h : r'.ports.Perm r.ports) {g : Graph}
    {P : Extent → Prop} : r'.Walks g P ↔ r.Walks g P :=
  forall_congr' fun _ => by rw [(movingPorts_perm h).mem_iff]

/-- The walked extents come in any order when the ports are put in order. -/
theorem exists_extents_perm {r : LoopRecord} {g : Graph} {es : List Extent}
    (h : es.Perm (r.extents g)) :
    ∃ r' : LoopRecord, r'.workAmount = r.workAmount ∧ r'.ports.Perm r.ports ∧
      r'.extents g = es := by
  have hextents : ∀ r : LoopRecord, r.extents g =
      r.ports.filterMap fun p => if p.incremented then p.extent? g else none := by
    intro r
    rw [extents, walkedExtents, movingPorts, List.filterMap_filter]
  rw [hextents] at h
  obtain ⟨ports, hperm, hes⟩ := exists_perm_filterMap h
  have hports : (⟨r.workAmount, ports, []⟩ : LoopRecord).ports = ports := List.append_nil ports
  refine ⟨⟨r.workAmount, ports, []⟩, rfl, ?_, by rw [hextents, hports, hes]⟩
  rw [hports]
  exact hperm

/-- Unless a dynamic extent hides a clash, the order of the ports does not matter. -/
theorem mergedExtent_perm {r r' : LoopRecord} (h : r'.ports.Perm r.ports) {g : Graph}
    (hambiguous : ¬ Extent.Ambiguous (r.extents g)) {loop : LoopId} {m : Extent} :
    r'.mergedExtent g loop = .ok m ↔ r.mergedExtent g loop = .ok m := by
  rw [mergedExtent_eq_ok, mergedExtent_eq_ok, walks_perm h, Grouping.merged_eq_of_perm]
  · rw [Grouping.leaves_chain, Grouping.leaves_chain]
    exact (extents_perm h g).append_left _
  · rw [Grouping.leaves_chain]
    intro ha
    exact hambiguous (ha.of_cons_one.mono (extents_perm h g).subset)

end LoopRecord

/-- The same number of iterations, or no number in both cases because two extents do not fit. -/
inductive SameOutcome (loop : LoopId) : Except LoopError Extent → Except LoopError Extent → Prop
  | merged (m : Extent) : SameOutcome loop (.ok m) (.ok m)
  | incompatible (lhs rhs lhs' rhs' : Extent) :
    SameOutcome loop (.error (.incompatible loop lhs rhs)) (.error (.incompatible loop lhs' rhs'))

theorem SameOutcome.ok_iff {loop : LoopId} {a b : Except LoopError Extent}
    (h : SameOutcome loop a b) {m : Extent} : a = .ok m ↔ b = .ok m := by
  cases h <;> simp

theorem sameOutcome_of_ok_iff {g : Graph} {loop : LoopId} {r r' : LoopRecord}
    (hr : r.Walks g fun _ => True) (hr' : r'.Walks g fun _ => True)
    (h : ∀ m, r'.mergedExtent g loop = .ok m ↔ r.mergedExtent g loop = .ok m) :
    SameOutcome loop (r'.mergedExtent g loop) (r.mergedExtent g loop) := by
  rcases mergeExtents_of_walks hr loop (.known 1) with ⟨m, hm⟩ | ⟨lhs, rhs, herror⟩
  · have hm : r.mergedExtent g loop = .ok m := hm
    rw [hm, (h m).mpr hm]
    exact .merged m
  · have herror : r.mergedExtent g loop = .error (.incompatible loop lhs rhs) := herror
    rcases mergeExtents_of_walks hr' loop (.known 1) with ⟨m, hm⟩ | ⟨lhs', rhs', herror'⟩
    · have hm := (h m).mp hm
      rw [herror] at hm
      cases hm
    · have herror' : r'.mergedExtent g loop = .error (.incompatible loop lhs' rhs') := herror'
      rw [herror, herror']
      exact .incompatible ..

namespace LoopRecord

theorem resolvedAmount_of_dynamic {r : LoopRecord} (h : r.workAmount = .dynamic) (g : Graph)
    (loop : LoopId) : r.resolvedAmount g loop = r.mergedExtent g loop := by
  rw [resolvedAmount, h]
  rfl

/-- A dynamic extent that comes first hides the others. -/
theorem mergedExtent_of_dynamic_first {r : LoopRecord} {g : Graph} (hw : r.Walks g fun _ => True)
    {es : List Extent} (h : r.extents g = .dynamic :: es) (loop : LoopId) :
    r.mergedExtent g loop = .ok .dynamic := by
  refine mergedExtent_eq_ok.mpr ⟨hw, ?_⟩
  rw [h, Grouping.chain]
  exact Grouping.merged_chain_dynamic rfl es

/-- Two clashing extents that come first are reported. -/
theorem mergedExtent_of_clash_first {r : LoopRecord} {g : Graph} {a b : Extent}
    {es : List Extent} (h : r.extents g = a :: b :: es) (hab : a.Clash b) (loop : LoopId)
    (m : Extent) : r.mergedExtent g loop ≠ .ok m := by
  intro hm
  obtain ⟨-, hm⟩ := mergedExtent_eq_ok.mp hm
  have hnone : ((Grouping.leaf (.known 1)).node (.leaf a) |>.node (.leaf b)).merged = none := by
    simp only [Grouping.merged, Option.bind_some]
    rw [show (Extent.known 1).merge? a = some a from Extent.one_givesWay a]
    exact hab
  rw [h, Grouping.chain, Grouping.chain, Grouping.merged_chain_none hnone] at hm
  cases hm

/-- A dynamic number of iterations is resolved alike for all orders of the ports, also when ports
change between entries and exits, exactly when no dynamic extent hides a clash. -/
theorem resolvedAmount_perm_iff {r : LoopRecord} {g : Graph} (loop : LoopId)
    (hr : r.workAmount = .dynamic) (hw : r.Walks g fun _ => True) :
    (∀ r' : LoopRecord, r'.workAmount = .dynamic → r'.ports.Perm r.ports →
      SameOutcome loop (r'.resolvedAmount g loop) (r.resolvedAmount g loop)) ↔
      ¬ Extent.Ambiguous (r.extents g) := by
  rw [resolvedAmount_of_dynamic hr]
  constructor
  · intro hsame hambiguous
    obtain ⟨⟨es, hes⟩, a, b, fs, hfs, hab⟩ := Grouping.orders_of_ambiguous hambiguous
    obtain ⟨r₁, hr₁, hperm₁, hextents₁⟩ := exists_extents_perm hes
    obtain ⟨r₂, hr₂, hperm₂, hextents₂⟩ := exists_extents_perm hfs
    have hsame₁ := hsame r₁ (hr₁.trans hr) hperm₁
    have hsame₂ := hsame r₂ (hr₂.trans hr) hperm₂
    rw [resolvedAmount_of_dynamic (hr₁.trans hr)] at hsame₁
    rw [resolvedAmount_of_dynamic (hr₂.trans hr)] at hsame₂
    have hok := hsame₁.ok_iff.mp
      (mergedExtent_of_dynamic_first ((walks_perm hperm₁).mpr hw) hextents₁ loop)
    exact mergedExtent_of_clash_first hextents₂ hab loop _ (hsame₂.ok_iff.mpr hok)
  · intro hambiguous r' hr' hperm
    rw [resolvedAmount_of_dynamic hr']
    exact sameOutcome_of_ok_iff hw ((walks_perm hperm).mpr hw)
      fun m => mergedExtent_perm hperm hambiguous

end LoopRecord

/-- All groupings of the same extents in any order come to the same exactly when no dynamic extent
hides a clash. -/
theorem Grouping.merged_perm_iff {es : List Extent} :
    (∀ s t : Grouping, s.leaves.Perm es → t.leaves.Perm es → s.merged = t.merged) ↔
      ¬ Extent.Ambiguous es := by
  constructor
  · intro hsame hambiguous
    obtain ⟨⟨fs, hfs⟩, a, b, gs, hgs, hab⟩ := orders_of_ambiguous hambiguous
    have hdynamic := merged_chain_dynamic (t := .leaf .dynamic) rfl fs
    have hnone := merged_chain_none (t := .node (.leaf a) (.leaf b)) hab gs
    have heq := hsame ((leaf .dynamic).chain fs) ((node (.leaf a) (.leaf b)).chain gs)
      (by rw [leaves_chain]; exact hfs) (by rw [leaves_chain]; exact hgs)
    rw [hdynamic, hnone] at heq
    cases heq
  · intro hambiguous s t hs ht
    exact merged_eq_of_perm (hs.trans ht.symm) fun ha => hambiguous (ha.mono hs.subset)

/-- Merging extents does not depend on their order or grouping, and the number of iterations of a
loop not on the order of its ports, exactly when no dynamic extent stands beside two that clash. -/
theorem orders_agree_iff (es : List Extent) (g : Graph) (loop : LoopId) (r : LoopRecord) :
    ((∀ s t : Grouping, s.leaves.Perm es → t.leaves.Perm es → s.merged = t.merged) ↔
      ¬ Extent.Ambiguous es) ∧
    (r.workAmount = .dynamic → (r.Walks g fun _ => True) →
      ((∀ r' : LoopRecord, r'.workAmount = .dynamic → r'.ports.Perm r.ports →
        SameOutcome loop (r'.resolvedAmount g loop) (r.resolvedAmount g loop)) ↔
        ¬ Extent.Ambiguous (r.extents g))) :=
  ⟨Grouping.merged_perm_iff, LoopRecord.resolvedAmount_perm_iff loop⟩

/-- Loads of two, of a dynamic number and of three elements. -/
def threeLoads : Graph :=
  let two : Descriptor := .dense .f32 [.known 2]
  let unknown : Descriptor := .dense .f32 [.dynamic]
  let three : Descriptor := .dense .f32 [.known 3]
  { expressions :=
      [⟨0, some "p", .parameter, [], [], [⟨two, 0⟩]⟩,
        ⟨1, some "q", .parameter, [], [], [⟨unknown, 1⟩]⟩,
        ⟨2, some "r", .parameter, [], [], [⟨three, 2⟩]⟩,
        ⟨3, some "a", .load, [0], [⟨two, 0⟩], [⟨two, 3⟩]⟩,
        ⟨4, some "b", .load, [0], [⟨unknown, 1⟩], [⟨unknown, 4⟩]⟩,
        ⟨5, some "c", .load, [0], [⟨three, 2⟩], [⟨three, 5⟩]⟩]
    connectors :=
      [⟨⟨0, .output, 0⟩, [⟨3, .input, 0⟩]⟩, ⟨⟨1, .output, 0⟩, [⟨4, .input, 0⟩]⟩,
        ⟨⟨2, .output, 0⟩, [⟨5, .input, 0⟩]⟩, ⟨⟨3, .output, 0⟩, []⟩, ⟨⟨4, .output, 0⟩, []⟩,
        ⟨⟨5, .output, 0⟩, []⟩] }

/-- A loop over the inputs of some of the loads, in order. -/
def loopOver (workAmount : Extent) (loads : List ExprId) : LoopRecord :=
  ⟨workAmount, loads.map fun i => .moving ⟨i, .input, 0⟩ 0, []⟩

/-- Merging is not associative, and the order of the ports decides whether two extents that do not
fit are found. -/
theorem order_decides :
    (((Extent.known 2).merge? (.known 3)).bind fun m => m.merge? .dynamic) ≠
        ((Extent.known 3).merge? .dynamic).bind ((Extent.known 2).merge? ·) ∧
      (loopOver .dynamic [3, 5, 4]).ports.Perm (loopOver .dynamic [3, 4, 5]).ports ∧
      (loopOver .dynamic [3, 4, 5]).resolvedAmount threeLoads 0 = .ok .dynamic ∧
      (loopOver .dynamic [3, 5, 4]).resolvedAmount threeLoads 0 =
        .error (.incompatible 0 (.known 2) (.known 3)) := by
  decide

theorem orders_agree_iff_loads :
    (loopOver .dynamic [3, 4, 5]).workAmount = .dynamic ∧
      ((loopOver .dynamic [3, 4, 5]).Walks threeLoads fun _ => True) ∧
      ¬ ∀ r' : LoopRecord, r'.workAmount = .dynamic →
        r'.ports.Perm (loopOver .dynamic [3, 4, 5]).ports →
        SameOutcome 0 (r'.resolvedAmount threeLoads 0)
          ((loopOver .dynamic [3, 4, 5]).resolvedAmount threeLoads 0) := by
  have hwalks : (loopOver .dynamic [3, 4, 5]).Walks threeLoads fun _ => True := by decide
  have hiff := (orders_agree_iff [] threeLoads 0 (loopOver .dynamic [3, 4, 5])).2 rfl hwalks
  exact ⟨rfl, hwalks, fun hsame => hiff.mp hsame (by decide)⟩

end TensorLoops
