import TensorLoops.Proofs.Nodes
import TensorLoops.Proofs.Scanning

namespace TensorLoops

/-- The values that the declaration mentions: its result, then its operands. -/
def ExpressionDecl.values (d : ExpressionDecl) : List (Located String) :=
  d.result.toList ++ d.operands.map (·.value.value)

def LoopDecl.values (d : LoopDecl) : List (Located String) := d.ports.map (·.value.value)

def Item.values : Item → List (Located String)
  | .loop d => d.value.values
  | .expression d => d.value.values

namespace Node

/-- The values that the node mentions, in the order in which they are written. -/
def values : Node → List (Located String)
  | value l => [l]
  | identifier _ | number _ | extent _ | layout _ | tensorType _ => []
  | operand l => [l.value.value]
  | expression l => l.value.values
  | port l => [l.value.value]
  | loop l => l.value.values

theorem values_children {n : Node} (h : n.children ≠ []) :
    n.children.flatMap values = n.values := by
  cases n with
  | identifier _ | value _ | number _ | extent _ | layout _ => exact absurd rfl h
  | tensorType l => simp [children, TensorType.nodes, values, List.flatMap_map]
  | operand l => simp [children, Operand.nodes, values, List.flatMap_map]
  | expression l =>
    simp [children, ExpressionDecl.nodes, values, ExpressionDecl.values, List.flatMap_map,
      ← List.map_eq_flatMap]
  | port l => rfl
  | loop l =>
    simp [children, LoopDecl.nodes, values, LoopDecl.values, List.flatMap_map,
      ← List.map_eq_flatMap]

theorem values_node (i : Item) : i.node.values = i.values := by
  cases i <;> rfl

/-- How many levels of parts there can be in a node of the kind. -/
def rank : Node → Nat
  | identifier _ | value _ | number _ | extent _ | layout _ => 0
  | tensorType _ | port _ => 1
  | operand _ | loop _ => 2
  | expression _ => 3

theorem rank_lt_of_mem_children {n : Node} : ∀ m ∈ n.children, m.rank < n.rank := by
  cases n <;> simp [children, TensorType.nodes, Operand.nodes, ExpressionDecl.nodes,
    PortDecl.nodes, LoopDecl.nodes, or_imp, forall_and, rank]

end Node

namespace Source

theorem Laid.filterMap_of_forall {ts : Tokens} {ns : List Node} (h : Laid ts ns)
    (hns : ∀ n ∈ ns, ∀ us, n.ReadFrom us → us.filterMap valueAt? = n.values) :
    ts.filterMap valueAt? = ns.flatMap Node.values := by
  induction h with
  | nil hgap => exact hgap
  | @cons gap us rest n ns hgap _ hn _ ih =>
    have hfirst := hns n List.mem_cons_self us hn
    have hrest := ih fun m hm => hns m (List.mem_cons_of_mem _ hm)
    rw [List.filterMap_append, List.filterMap_append, hgap, hfirst, hrest]
    rfl

/-- A value is read from itself. -/
theorem filterMap_value {ts : Tokens} {l : Located String}
    (h : Grammar.value.located.Derives ts l) : ts.filterMap valueAt? = [l] := by
  obtain ⟨⟨⟨t, span⟩, rfl, ha⟩, hspan⟩ := h
  cases t with
  | value name =>
    cases ha
    exact congrArg (fun s => [Located.mk _ s]) hspan.symm
  | keyword _ | symbol _ | number _ | ident _ => cases ha

/-- The values among the tokens of a node are those that it mentions: what stands between its parts
is not a value, and the parts have fewer levels. -/
theorem filterMap_of_readFrom {ts : Tokens} {n : Node} (h : n.ReadFrom ts) :
    ts.filterMap valueAt? = n.values := by
  have hparts : n.children ≠ [] → ts.filterMap valueAt? = n.values := by
    intro hn
    rw [← Node.values_children hn]
    refine (Node.laid_children h hn).filterMap_of_forall fun m hm _ hread => ?_
    have hrank := Node.rank_lt_of_mem_children m hm
    exact filterMap_of_readFrom hread
  cases n with
  | value l => exact filterMap_value h
  | identifier l =>
    have hnothing : Grammar.identifier.Lays fun _ => [] := Grammar.lays_nothing fun _ => rfl
    exact (hnothing ts l.value h.1).filterMap_of_forall nofun
  | number l => exact (Grammar.lays_digits ts l.value h.1).filterMap_of_forall nofun
  | extent l =>
    have hnothing : Grammar.extent.Lays fun _ => [] := Grammar.lays_nothing fun _ => rfl
    exact (hnothing ts l.value h.1).filterMap_of_forall nofun
  | layout l =>
    have haxes : (Grammar.skip (.keyword .layout) (.bracketed .number)).Lays fun _ => [] :=
      ((Grammar.lays_keyword .layout).seq Grammar.lays_digits.bracketed).map fun _ => by simp
    exact (haxes ts l.value h.1).filterMap_of_forall nofun
  | tensorType l => exact hparts (List.cons_ne_nil _ _)
  | operand l => exact hparts (List.cons_ne_nil _ _)
  | expression l => exact hparts (by simp [Node.children, ExpressionDecl.nodes])
  | port l => exact hparts (List.cons_ne_nil _ _)
  | loop l => exact hparts (List.cons_ne_nil _ _)
termination_by n.rank

/-- Each token of a text stands behind the one before it. -/
theorem pairwise_tokens (source : String) :
    (scan source).tokens.Pairwise fun t u => t.span.start < u.span.start := by
  have hlexemes : (lexemesFrom 0 source.toList).Pairwise fun l m => l.span.start < m.span.start :=
    (cut_iff.mpr rfl).pairwise.imp And.left
  have hspan : ∀ {l : Located Lexeme} {t : Located Token}, t ∈ tokenPart? l → t.span = l.span := by
    rintro ⟨u | text, span⟩ t ht
    · cases ht
      rfl
    · cases ht
  rw [scan_eq]
  refine hlexemes.filterMap _ fun l m hlt t ht u hu => ?_
  rwa [hspan ht, hspan hu]

end Source

section Lists

variable {α : Type} {R S : α → α → Prop} {xs : List α}

/-- What follows of two elements in either order holds of any two. -/
theorem forall_of_pairwise (h : xs.Pairwise R) (hRS : ∀ a b, R a b → S a b ∧ S b a)
    (hrefl : ∀ a, S a a) {a b : α} (ha : a ∈ xs) (hb : b ∈ xs) : S a b :=
  List.Pairwise.forall_of_forall_of_flip (fun a _ => hrefl a) (h.imp fun hab => (hRS _ _ hab).1)
    (h.imp fun hab => (hRS _ _ hab).2) ha hb

/-- In an ordered list, elements that are not in order can only be at one position. -/
theorem before_eq_of_not_rel {before after before' after' : List α} {a a' : α}
    (h : (before ++ a :: after).Pairwise R)
    (hsplit : before ++ a :: after = before' ++ a' :: after') (hleft : ¬ R a a')
    (hright : ¬ R a' a) : before = before' := by
  rcases List.append_eq_append_iff.mp hsplit with ⟨more, rfl, htail⟩ | ⟨more, rfl, htail⟩
  · cases more with
    | nil => exact (List.append_nil before).symm
    | cons b more =>
      obtain ⟨rfl, rfl⟩ := List.cons.inj htail
      have hrest := (List.pairwise_cons.mp (List.pairwise_append.mp h).2.1).1
      exact absurd (hrest a' (by simp)) hleft
  · cases more with
    | nil => exact List.append_nil before'
    | cons b more =>
      obtain ⟨rfl, rfl⟩ := List.cons.inj htail
      have hfront := (List.pairwise_append.mp h).2.2
      exact absurd (hfront a' (by simp) a List.mem_cons_self) hright

end Lists

namespace Kernel

open Source

variable {source : String} {kernel : Kernel} {v w : Located String}

/-- The values that a kernel mentions are those of the text. -/
theorem values_eq (h : (parse source).kernel = some kernel) :
    kernel.items.flatMap Item.values = (scan source).tokens.filterMap valueAt? := by
  have hderives := (readKernel_eq_ok.mp (parse_kernel_eq_some.mp h)).1
  have hlaid := Grammar.lays_items _ _ hderives
  rw [hlaid.filterMap_of_forall fun _ _ _ hread => filterMap_of_readFrom hread, List.flatMap_map]
  simp only [Node.values_node]

theorem pairwise_values (h : (parse source).kernel = some kernel) :
    (kernel.items.flatMap Item.values).Pairwise fun v w => v.span.start < w.span.start := by
  have hspan : ∀ {t : Located Token} {v : Located String}, v ∈ valueAt? t → v.span = t.span := by
    rintro ⟨t, span⟩ v hv
    cases t with
    | value name =>
      cases hv
      rfl
    | keyword _ | symbol _ | number _ | ident _ => cases hv
  rw [values_eq h]
  refine (pairwise_tokens source).filterMap _ fun t u hlt v hv w hw => ?_
  rwa [hspan hv, hspan hw]

/-- The values of an item stand in front of those of the items behind it. -/
theorem pairwise_items (h : (parse source).kernel = some kernel) :
    kernel.items.Pairwise fun i j =>
      ∀ v ∈ i.values, ∀ w ∈ j.values, v.span.start < w.span.start :=
  (List.pairwise_flatMap.mp (pairwise_values h)).2

/-- Where one value stands there is no other. -/
theorem value_unique (h : (parse source).kernel = some kernel)
    (hv : v ∈ kernel.items.flatMap Item.values) (hw : w ∈ kernel.items.flatMap Item.values) :
    v.span = w.span → v = w := by
  refine forall_of_pairwise (S := fun v w => v.span = w.span → v = w) (pairwise_values h)
    (fun v w hlt => ⟨fun heq => ?_, fun heq => ?_⟩) (fun _ _ => rfl) hv hw
  · exact absurd (congrArg Span.start heq) (Nat.ne_of_lt hlt)
  · exact absurd (congrArg Span.start heq) (Nat.ne_of_gt hlt)

/-- No value of one item stands where a value of another one does. -/
theorem items_apart (h : (parse source).kernel = some kernel) {i j : Item} (hi : i ∈ kernel.items)
    (hj : j ∈ kernel.items) :
    i ≠ j → ∀ v ∈ i.values, ∀ w ∈ j.values, v.span ≠ w.span := by
  refine forall_of_pairwise
    (S := fun i j => i ≠ j → ∀ v ∈ i.values, ∀ w ∈ j.values, v.span ≠ w.span) (pairwise_items h)
    (fun i j hlt => ⟨fun _ v hv w hw heq => ?_, fun _ v hv w hw heq => ?_⟩)
    (fun _ hne => absurd rfl hne) hi hj
  · exact Nat.ne_of_lt (hlt v hv w hw) (congrArg Span.start heq)
  · exact Nat.ne_of_gt (hlt w hw v hv) (congrArg Span.start heq)

/-- The declarations in front of an expression can be told from a place in it where a value
stands. -/
theorem before_unique (h : (parse source).kernel = some kernel)
    {before after before' after' : List (Located ExpressionDecl)}
    {decl decl' : Located ExpressionDecl} (hsplit : kernel.expressions = before ++ decl :: after)
    (hsplit' : kernel.expressions = before' ++ decl' :: after') (hv : v ∈ decl.value.values)
    (hw : w ∈ decl'.value.values) (hspan : v.span = w.span) : before = before' := by
  have hordered : kernel.expressions.Pairwise fun d e =>
      ∀ v ∈ d.value.values, ∀ w ∈ e.value.values, v.span.start < w.span.start := by
    refine (pairwise_items h).filterMap _ fun i j hlt d hd e he => ?_
    cases i <;> cases hd
    cases j <;> cases he
    exact hlt
  rw [hsplit] at hordered hsplit'
  have hstart := congrArg Span.start hspan
  refine before_eq_of_not_rel hordered hsplit' (fun hlt => ?_) fun hlt => ?_
  · exact Nat.ne_of_lt (hlt v hv w hw) hstart
  · exact Nat.ne_of_gt (hlt w hw v hv) hstart

end Kernel

end TensorLoops
