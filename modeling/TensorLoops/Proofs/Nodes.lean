import TensorLoops.Proofs.KernelReading

namespace TensorLoops

open Source (Tokens Grammar cover)

/-- A part of a kernel that has a place. -/
inductive Node where
  | identifier (l : Located String)
  | value (l : Located String)
  | number (l : Located UInt64)
  | extent (l : Located Extent)
  | layout (l : Located (List UInt64))
  | tensorType (l : Located TensorType)
  | operand (l : Located Operand)
  | expression (l : Located ExpressionDecl)
  | port (l : Located PortDecl)
  | loop (l : Located LoopDecl)

def TensorType.nodes (t : TensorType) : List Node :=
  .identifier t.element :: (t.shape.map .extent ++ t.layout.toList.map .layout)

def Operand.nodes (o : Operand) : List Node := .value o.value :: o.type.toList.map .tensorType

def ExpressionDecl.nodes (d : ExpressionDecl) : List Node :=
  d.result.toList.map .value ++ .identifier d.operation ::
    (d.operands.map .operand ++ (d.output.toList.map .tensorType ++ d.loops.map .number))

def PortDecl.nodes (d : PortDecl) : List Node := [.value d.value, .number d.dim]

def LoopDecl.nodes (d : LoopDecl) : List Node :=
  .number d.id :: .extent d.workAmount :: d.ports.map .port

def Item.node : Item → Node
  | .loop l => .loop l
  | .expression l => .expression l

namespace Node

def span : Node → Span
  | identifier l => l.span
  | value l => l.span
  | number l => l.span
  | extent l => l.span
  | layout l => l.span
  | tensorType l => l.span
  | operand l => l.span
  | expression l => l.span
  | port l => l.span
  | loop l => l.span

/-- The parts of a node that have a place, in the order in which they are written. -/
def children : Node → List Node
  | identifier _ | value _ | number _ | extent _ | layout _ => []
  | tensorType l => l.value.nodes
  | operand l => l.value.nodes
  | expression l => l.value.nodes
  | port l => l.value.nodes
  | loop l => l.value.nodes

/-- The tokens are those of the node: they denote it, and they cover its place. -/
def ReadFrom (ts : Tokens) : Node → Prop
  | identifier l => Grammar.identifier.located.Derives ts l
  | value l => Grammar.value.located.Derives ts l
  | number l => Grammar.number.located.Derives ts l
  | extent l => Grammar.extent.located.Derives ts l
  | layout l =>
    (Grammar.skip (.keyword .layout) (.bracketed .number)).located.Derives ts l
  | tensorType l => Grammar.tensorType.located.Derives ts l
  | operand l => Grammar.operand.located.Derives ts l
  | expression l => Grammar.expression.located.Derives ts l
  | port l => Grammar.port.located.Derives ts l
  | loop l => Grammar.loop.located.Derives ts l

theorem span_eq_cover {n : Node} {ts : Tokens} (h : n.ReadFrom ts) : n.span = cover ts := by
  cases n <;> exact h.2

end Node

/-- The node is an item of the kernel, or a part of an item, or a part of that, and so on. -/
inductive Kernel.HasNode (k : Kernel) : Node → Prop where
  | item {i : Item} (hi : i ∈ k.items) : k.HasNode i.node
  | child {m n : Node} (hn : k.HasNode n) (hm : m ∈ n.children) : k.HasNode m

namespace Source

/-- The value that the token is, if it is one. -/
def valueAt? (t : Located Token) : Option (Located String) :=
  match t.value with
  | .value name => some ⟨name, t.span⟩
  | _ => none

/-- The nodes are read from among the tokens, each from tokens behind those of the one before it.
The tokens in the gaps are not values. -/
inductive Laid : Tokens → List Node → Prop where
  | nil {gap : Tokens} (hgap : gap.filterMap valueAt? = []) : Laid gap []
  | cons {gap us rest : Tokens} {n : Node} {ns : List Node} (hgap : gap.filterMap valueAt? = [])
      (hne : us ≠ []) (hn : n.ReadFrom us) (hns : Laid rest ns) : Laid (gap ++ us ++ rest) (n :: ns)

namespace Laid

variable {ts us : Tokens} {ns ms : List Node} {n : Node}

theorem single (hne : ts ≠ []) (hn : n.ReadFrom ts) : Laid ts [n] := by
  have hlaid : Laid ([] ++ ts ++ []) [n] := .cons rfl hne hn (.nil rfl)
  rwa [List.nil_append, List.append_nil] at hlaid

theorem behind (hts : ts.filterMap valueAt? = []) (h : Laid us ns) : Laid (ts ++ us) ns := by
  have hboth : ∀ {gap : Tokens}, gap.filterMap valueAt? = [] →
      (ts ++ gap).filterMap valueAt? = [] := by
    intro gap hgap
    rw [List.filterMap_append, hts, hgap, List.append_nil]
  cases h with
  | nil hgap => exact .nil (hboth hgap)
  | cons hgap hne hn hns =>
    rw [← List.append_assoc, ← List.append_assoc]
    exact .cons (hboth hgap) hne hn hns

theorem append (h : Laid ts ns) (h' : Laid us ms) : Laid (ts ++ us) (ns ++ ms) := by
  induction h with
  | nil hgap => exact h'.behind hgap
  | cons hgap hne hn _ ih =>
    rw [List.append_assoc]
    exact .cons hgap hne hn ih

theorem exists_tokens (h : Laid ts ns) (hn : n ∈ ns) :
    ∃ us, us <:+: ts ∧ us ≠ [] ∧ n.ReadFrom us := by
  induction h with
  | nil _ => cases hn
  | cons _ hne hfirst _ ih =>
    rcases List.mem_cons.mp hn with rfl | hn
    · exact ⟨_, List.infix_append _ _ _, hne, hfirst⟩
    · obtain ⟨us, hus, hread⟩ := ih hn
      exact ⟨us, hus.trans (List.suffix_append _ _).isInfix, hread⟩

end Laid

namespace Grammar

variable {α β : Type} {g : Grammar α} {h : Grammar β} {f : α → List Node} {k : β → List Node}

/-- What the grammar reads out of tokens has nodes that are read from them in turn. -/
def Lays (g : Grammar α) (f : α → List Node) : Prop := ∀ ts a, g.Derives ts a → Laid ts (f a)

/-- A token that is no value, and of which no place is kept. -/
theorem lays_nothing {expected : Expected} {accept : Token → Option α}
    (h : ∀ name, accept (.value name) = none) : (token expected accept).Lays fun _ => [] := by
  rintro ts a ⟨⟨t, span⟩, rfl, ha⟩
  refine .nil ?_
  cases t with
  | value name =>
    rw [h name] at ha
    cases ha
  | keyword _ | symbol _ | number _ | ident _ => rfl

theorem lays_keyword (w : Keyword) : (keyword w).Lays fun _ => [] :=
  lays_nothing fun _ => if_neg nofun

theorem lays_symbol (s : Symbol) : (symbol s).Lays fun _ => [] := lays_nothing fun _ => if_neg nofun

theorem lays_digits : number.Lays fun _ => [] := lays_nothing fun _ => rfl

/-- A part with a place is a node of its own. -/
theorem lays_node (node : Located α → Node) (hn : g.nullable = false)
    (hnode : ∀ ts l, g.located.Derives ts l → (node l).ReadFrom ts) :
    g.located.Lays fun l => [node l] :=
  fun ts l hderives => .single (Derives.ne_nil hderives hn) (hnode ts l hderives)

theorem Lays.seq (hg : g.Lays f) (hh : h.Lays k) : (g.seq h).Lays fun x => f x.1 ++ k x.2 := by
  rintro ts ⟨a, b⟩ ⟨us, vs, rfl, hus, hvs⟩
  exact (hg us a hus).append (hh vs b hvs)

theorem Lays.either {g' : Grammar α} (hg : g.Lays f) (hg' : g'.Lays f) : (g.either g').Lays f := by
  rintro ts a (hderives | hderives)
  · exact hg ts a hderives
  · exact hg' ts a hderives

theorem Lays.optional (hg : g.Lays f) : g.optional.Lays fun x => x.toList.flatMap f := by
  intro ts x hderives
  cases x with
  | none =>
    cases show ts = [] from hderives
    exact .nil rfl
  | some a =>
    simpa only [Option.toList_some, List.flatMap_singleton] using hg ts a hderives

theorem Lays.many (hg : g.Lays f) : g.many.Lays fun as => as.flatMap f := by
  intro ts as hderives
  have hrepeated : Repeated g.Derives ts as := hderives
  clear hderives
  induction hrepeated with
  | nil => exact .nil rfl
  | cons head _ ih => exact (hg _ _ head).append ih

theorem Lays.list (hg : g.Lays f) : g.list.Lays fun as => as.flatMap f := by
  intro ts as hderives
  have hlisted : Listed g.Derives ts as := hderives
  clear hderives
  induction hlisted with
  | nil => exact .nil rfl
  | last head => simpa only [List.flatMap_singleton] using hg _ _ head
  | @cons us vs comma a as head separator _ ih =>
    have hcomma : [comma].filterMap valueAt? = [] := by simp [valueAt?, separator]
    exact (hg us a head).append (ih.behind hcomma)

theorem Lays.map {φ : α → β} (hg : g.Lays f) (hφ : ∀ a, f a = k (φ a)) : (g.map φ).Lays k := by
  rintro ts b ⟨a, ha, rfl⟩
  rw [← hφ]
  exact hg ts a ha

theorem Lays.skip (hg : g.Lays fun _ => []) (hh : h.Lays k) : (skip g h).Lays k :=
  (hg.seq hh).map fun _ => rfl

theorem Lays.keep (hg : g.Lays f) (hh : h.Lays fun _ => []) : (keep g h).Lays f :=
  (hg.seq hh).map fun _ => List.append_nil _

theorem Lays.enclosed (opening closing : Symbol) (hg : g.Lays f) :
    (enclosed opening closing g).Lays f :=
  (lays_symbol opening).skip (hg.keep (lays_symbol closing))

theorem Lays.bracketed (hg : g.Lays f) : (bracketed g).Lays fun as => as.flatMap f :=
  hg.list.enclosed .openBracket .closeBracket

theorem lays_identifier : identifier.located.Lays fun l => [.identifier l] :=
  lays_node .identifier rfl fun _ _ h => h

theorem lays_value : value.located.Lays fun l => [.value l] := lays_node .value rfl fun _ _ h => h

theorem lays_number : number.located.Lays fun l => [.number l] :=
  lays_node .number rfl fun _ _ h => h

theorem lays_extent : extent.located.Lays fun l => [.extent l] :=
  lays_node .extent rfl fun _ _ h => h

theorem lays_layout : (Grammar.skip (keyword .layout) (bracketed number)).located.Lays
    fun l => [.layout l] := lays_node .layout rfl fun _ _ h => h

theorem lays_tensorType : tensorType.Lays TensorType.nodes := by
  refine (lays_identifier.seq (lays_extent.bracketed.seq lays_layout.optional)).map fun x => ?_
  simp [TensorType.nodes, List.map_eq_flatMap]

theorem lays_typeClause : typeClause.Lays fun x => x.toList.map .tensorType := by
  have hnode : tensorType.located.Lays fun l => [.tensorType l] :=
    lays_node .tensorType rfl fun _ _ h => h
  have hclause := ((lays_symbol .colon).skip hnode).optional
  simpa only [typeClause, List.map_eq_flatMap] using hclause

theorem lays_operand : operand.Lays Operand.nodes :=
  (lays_value.seq lays_typeClause).map fun _ => rfl

theorem lays_loopsClause : loopsClause.Lays fun numbers => numbers.map .number := by
  refine ((lays_keyword .loops).skip lays_number.bracketed).optional.map fun numbers => ?_
  cases numbers <;> simp [List.map_eq_flatMap]

theorem lays_expression : expression.Lays ExpressionDecl.nodes := by
  have hresult := (lays_value.keep (lays_symbol .equals)).optional
  have hnode : operand.located.Lays fun l => [.operand l] := lays_node .operand rfl fun _ _ h => h
  have hoperands := hnode.list.enclosed .openParen .closeParen
  have hrest := hoperands.seq (lays_typeClause.seq lays_loopsClause)
  refine (hresult.seq (lays_identifier.seq hrest)).map fun x => ?_
  simp [ExpressionDecl.nodes, List.map_eq_flatMap]

theorem lays_port : port.Lays PortDecl.nodes := by
  have hkind : portKind.Lays fun _ => [] := lays_nothing fun _ => rfl
  have hvalue := lays_value.keep (lays_symbol .dot)
  have hdirection : direction.Lays fun _ => [] := lays_nothing fun _ => rfl
  have hindex := lays_digits.enclosed .openBracket .closeBracket
  have hdim := (lays_keyword .dim).skip lays_number
  have hrest := hindex.seq (hdim.seq (lays_keyword .fixed).optional)
  refine (hkind.seq (hvalue.seq (hdirection.seq hrest))).map fun x => ?_
  simp [PortDecl.nodes]

theorem lays_loop : loop.Lays LoopDecl.nodes := by
  have hid := (lays_keyword .loop).skip lays_number
  have hamount := (lays_keyword .workAmount).skip ((lays_symbol .equals).skip lays_extent)
  have hnode : port.located.Lays fun l => [.port l] := lays_node .port rfl fun _ _ h => h
  have hports := hnode.many.enclosed .openBrace .closeBrace
  refine (hid.seq (hamount.seq hports)).map fun x => ?_
  simp [LoopDecl.nodes, List.map_eq_flatMap]

theorem lays_items : items.Lays (List.map Item.node) := by
  have hloop : (Grammar.map Item.loop loop.located).Lays fun i => [i.node] :=
    (lays_node .loop rfl fun _ _ h => h).map fun _ => rfl
  have hexpression : (Grammar.map Item.expression expression.located).Lays fun i => [i.node] :=
    (lays_node .expression rfl fun _ _ h => h).map fun _ => rfl
  have hitems := (hloop.either hexpression).many
  simpa only [items, item, ← List.map_eq_flatMap] using hitems

end Grammar

end Source

open Source

variable {ts : Tokens}

/-- The parts of a node that has any are read from its tokens in turn. -/
theorem Node.laid_children {n : Node} (h : n.ReadFrom ts) (hn : n.children ≠ []) :
    Laid ts n.children := by
  cases n with
  | identifier _ | value _ | number _ | extent _ | layout _ => exact absurd rfl hn
  | tensorType l => exact Grammar.lays_tensorType ts l.value h.1
  | operand l => exact Grammar.lays_operand ts l.value h.1
  | expression l => exact Grammar.lays_expression ts l.value h.1
  | port l => exact Grammar.lays_port ts l.value h.1
  | loop l => exact Grammar.lays_loop ts l.value h.1

/-- Each node of a kernel is read from tokens that follow each other directly. -/
theorem Kernel.HasNode.exists_tokens {k : Kernel} {n : Node} (hk : Grammar.items.Derives ts k.items)
    (h : k.HasNode n) : ∃ us, us <:+: ts ∧ us ≠ [] ∧ n.ReadFrom us := by
  induction h with
  | item hi => exact (Grammar.lays_items ts _ hk).exists_tokens (List.mem_map_of_mem hi)
  | child _ hm ih =>
    obtain ⟨us, hus, -, hread⟩ := ih
    have hlaid := Node.laid_children hread (List.ne_nil_of_mem hm)
    obtain ⟨vs, hvs, hne, hpart⟩ := hlaid.exists_tokens hm
    exact ⟨vs, hvs.trans hus, hne, hpart⟩

end TensorLoops
