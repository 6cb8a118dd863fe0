import TensorLoops.Proofs.Slices

namespace TensorLoops

open Source

/-- The text at the place of an identifier is its name, and at that of a value its name behind the
sign. -/
def Node.NamedIn (source : String) : Node → Prop
  | identifier l => slice source l.span = l.value
  | value l => slice source l.span = "%" ++ l.value
  | _ => True

/-- The node stands at its place in the source and nothing else does: it is read from the tokens
there, and these cover the place. Its parts stand there one behind the other. -/
structure Node.Delimits (source : String) (n : Node) : Prop where
  nonempty : n.span.start < n.span.stop
  start : IsCharBoundary source n.span.start
  stop : IsCharBoundary source n.span.stop
  tokens : n.ReadFrom (within n.span (scan source).tokens)
  named : n.NamedIn source
  children : ∀ m ∈ n.children, n.span.Contains m.span
  apart : n.children.Pairwise fun m m' => m.span.stop ≤ m'.span.start

/-- The kernel is read from all tokens, and these cover its place. The items stand there one behind
the other, and all nodes at their places. From the text at the place of an item alone that item is
read, and nothing is wrong with the text; the places are then counted from its own beginning. -/
structure Kernel.Delimits (source : String) (k : Kernel) : Prop where
  tokens : Grammar.items.Derives (scan source).tokens k.items
  span : k.span = kernelSpan source.utf8ByteSize (scan source).tokens
  items : ∀ i ∈ k.items, k.span.Contains i.node.span
  apart : k.items.Pairwise fun i j => i.node.span.stop ≤ j.node.span.start
  nodes : ∀ n, k.HasNode n → n.Delimits source
  alone : ∀ i ∈ k.items, ∃ i' : Item, i'.shift i.node.span.start = i ∧
    parse (slice source i.node.span) = ⟨some ⟨[i'], i'.node.span⟩, []⟩

variable {source : String} {ts us : Tokens} {ns : List Node} {n : Node}

namespace Source

theorem Laid.apart (h : Laid ts ns) (hordered : Ordered ts) :
    ns.Pairwise fun m n => m.span.stop ≤ n.span.start := by
  induction h with
  | nil _ => exact .nil
  | @cons gap us rest n ns _ hne hn hns ih =>
    have hrest : Ordered rest := hordered.sublist (List.sublist_append_right _ _)
    refine .cons (fun m hm => ?_) (ih hrest)
    obtain ⟨vs, hvs, hne', hread⟩ := hns.exists_tokens hm
    have hboth : Ordered (us ++ vs) :=
      hordered.sublist ((List.sublist_append_right gap us).append hvs.sublist)
    rw [Node.span_eq_cover hn, Node.span_eq_cover hread]
    exact hboth.cover_apart hne hne'

theorem Laid.contained (h : Laid ts ns) (hordered : Ordered ts) (hn : n ∈ ns) :
    (cover ts).Contains n.span := by
  obtain ⟨us, hus, hne, hread⟩ := h.exists_tokens hn
  rw [Node.span_eq_cover hread]
  exact hordered.contains_cover hus.subset hne

/-- Only a number can be written in more than one way. -/
theorem Denotes.text_eq {text : List Char} {t : Token} (h : Denotes text t)
    (hn : ∀ m, t ≠ .number m) : .ofList text = t.text := by
  cases h with
  | keyword k => exact String.ofList_toList
  | symbol s => rfl
  | number _ _ => exact absurd rfl (hn _)
  | value _ _ => exact String.ofList_cons
  | ident _ _ _ => rfl

end Source

namespace Node

theorem namedIn_of_readFrom (h : n.ReadFrom us) (hus : us ⊆ (scan source).tokens) :
    n.NamedIn source := by
  have htext : ∀ t ∈ us, (∀ m, t.value ≠ .number m) → slice source t.span = t.value.text := by
    intro t ht hn
    rw [← (denotes_slice (hus ht)).text_eq hn, String.ofList_toList]
  cases n with
  | identifier l =>
    obtain ⟨⟨⟨t, span⟩, rfl, ha⟩, hspan⟩ := h
    cases t with
    | ident name =>
      cases ha
      rw [NamedIn, hspan]
      exact htext _ List.mem_cons_self fun _ => nofun
    | keyword _ | symbol _ | number _ | value _ => cases ha
  | value l =>
    obtain ⟨⟨⟨t, span⟩, rfl, ha⟩, hspan⟩ := h
    cases t with
    | value name =>
      cases ha
      rw [NamedIn, hspan]
      exact htext _ List.mem_cons_self fun _ => nofun
    | keyword _ | symbol _ | number _ | ident _ => cases ha
  | number _ | extent _ | layout _ | tensorType _ | operand _ | expression _ | port _ | loop _ =>
    trivial

/-- What is read from tokens that follow each other directly stands at the place they cover. -/
theorem delimits_of_readFrom (hbad : (scan source).badText = [])
    (hus : us <:+: (scan source).tokens) (hne : us ≠ []) (h : n.ReadFrom us) :
    n.Delimits source := by
  have hcut := cut_tokens hbad
  have hordered : Ordered us := hcut.ordered.sublist hus.sublist
  have hspan := span_eq_cover h
  obtain ⟨before, after, htokens⟩ := hus
  rw [← htokens] at hcut
  obtain ⟨front, middle, rest, htext, hcover, -⟩ := hcut.exists_slice hne
  constructor
  · rw [hspan]
    exact hordered.cover_nonempty hne
  · rw [hspan, hcover]
    exact isCharBoundary_iff.mpr ⟨front, middle ++ rest, by rw [htext, List.append_assoc], rfl⟩
  · rw [hspan, hcover]
    exact isCharBoundary_iff.mpr ⟨front ++ middle, rest, htext, rfl⟩
  · rwa [hspan, (cut_tokens hbad).ordered.within_cover ⟨before, after, htokens⟩ hne]
  · exact namedIn_of_readFrom h (List.IsInfix.subset ⟨before, after, htokens⟩)
  · intro m hm
    rw [hspan]
    exact (laid_children h (List.ne_nil_of_mem hm)).contained hordered hm
  · by_cases hparts : n.children = []
    · rw [hparts]
      exact .nil
    · exact (laid_children h hparts).apart hordered

end Node

/-- In a text in which nothing is wrong, places delimit exactly what stands there. -/
theorem parse_delimits (h : (parse source).errors = []) :
    ∃ kernel, parse source = ⟨some kernel, []⟩ ∧ kernel.Delimits source := by
  obtain ⟨kernel, hparse⟩ := exists_kernel_of_errors_eq_nil h
  obtain ⟨hbad, hderives, hspan⟩ := parse_eq_some_iff.mp hparse
  have hordered := (cut_tokens hbad).ordered
  have hlaid := Grammar.lays_items _ _ hderives
  refine ⟨kernel, hparse, hderives, hspan, fun i hi => ?_, ?_, fun n hn => ?_, fun i hi => ?_⟩
  · have hnode : i.node ∈ kernel.items.map Item.node := List.mem_map_of_mem hi
    have hsome : (scan source).tokens ≠ [] := by
      obtain ⟨us, hus, hne, -⟩ := hlaid.exists_tokens hnode
      exact fun hnil => hne (List.eq_nil_of_infix_nil (hnil ▸ hus))
    rw [hspan, kernelSpan, if_neg (by simpa using hsome)]
    exact hlaid.contained hordered hnode
  · exact List.pairwise_map.mp (hlaid.apart hordered)
  · obtain ⟨us, hus, hne, hread⟩ := hn.exists_tokens hderives
    exact Node.delimits_of_readFrom hbad hus hne hread
  · obtain ⟨us, ⟨before, after, htokens⟩, hne, hread⟩ :=
      hlaid.exists_tokens (List.mem_map_of_mem hi)
    rw [Node.span_eq_cover hread]
    exact parse_slice hbad htokens.symm hne hread

/-- Commas behind the last parts, comments that look like more of an item, and a longer character. -/
def commentedKernel : String :=
  "# é\n%x = Load(%p : f32[2,] layout [0],) # layout [\nloop 3 work_amount = ?\n" ++
    "\x7bexit %x.out[0] dim 0\x7d Nop() loops [3] # é"

theorem parse_delimits_comments : (parse commentedKernel).errors = [] ∧
    ∃ kernel, parse commentedKernel = ⟨some kernel, []⟩ ∧ kernel.Delimits commentedKernel := by
  have herrors : (parse commentedKernel).errors = [] := by decide +kernel
  exact ⟨herrors, parse_delimits herrors⟩

/-- The texts at the places of the items and of the parts that these have. -/
example : (parse commentedKernel).kernel.map (fun k => k.items.map fun i =>
    (i.node :: i.node.children).map fun n => slice commentedKernel n.span) =
      some [["%x = Load(%p : f32[2,] layout [0],)", "%x", "Load", "%p : f32[2,] layout [0]"],
        ["loop 3 work_amount = ?\n\x7bexit %x.out[0] dim 0\x7d", "3", "?", "exit %x.out[0] dim 0"],
        ["Nop() loops [3]", "Nop", "3"]] := by
  decide +kernel

end TensorLoops
