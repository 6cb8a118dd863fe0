import TensorLoops.Proofs.KernelReading
import TensorLoops.Proofs.ListingTokens

namespace TensorLoops

theorem map_eq_of_forall₂ {α β : Type} {f : β → α} {xs : List α} {ys : List β}
    (h : List.Forall₂ (fun x y => f y = x) xs ys) : ys.map f = xs := by
  induction h with
  | nil => rfl
  | cons hxy _ ih => rw [List.map_cons, hxy, ih]

namespace Source

namespace Grammar

variable {α β : Type}

/-- Wherever the tokens stand, the grammar derives them as something that satisfies `P`. -/
def Denotes (g : Grammar α) (tokens : List Token) (P : α → Prop) : Prop :=
  ∀ ts : Tokens, ts.map Located.value = tokens → ∃ a, g.Derives ts a ∧ P a

namespace Denotes

variable {g : Grammar α} {h : Grammar β} {us vs : List Token} {P P' : α → Prop} {Q : β → Prop}

theorem mono (hg : g.Denotes us P) (hP : ∀ a, P a → P' a) : g.Denotes us P' := by
  intro ts hts
  obtain ⟨a, ha, hp⟩ := hg ts hts
  exact ⟨a, ha, hP a hp⟩

theorem token {expected : Expected} {accept : Token → Option α} {t : Token} {a : α}
    (ha : accept t = some a) : (Grammar.token expected accept).Denotes [t] (· = a) := by
  intro ts hts
  obtain ⟨u, rfl, rfl⟩ := List.map_eq_singleton_iff.mp hts
  exact ⟨a, ⟨u, rfl, ha⟩, rfl⟩

theorem exactly (t : Token) : (Grammar.exactly t).Denotes [t] (· = ()) := token (if_pos rfl)

theorem seq (hg : g.Denotes us P) (hh : h.Denotes vs Q) :
    (Grammar.seq g h).Denotes (us ++ vs) fun x => P x.1 ∧ Q x.2 := by
  intro ts hts
  obtain ⟨ts₁, ts₂, rfl, h₁, h₂⟩ := List.map_eq_append_iff.mp hts
  obtain ⟨a, ha, hp⟩ := hg ts₁ h₁
  obtain ⟨b, hb, hq⟩ := hh ts₂ h₂
  exact ⟨(a, b), ⟨ts₁, ts₂, rfl, ha, hb⟩, hp, hq⟩

theorem map (hg : g.Denotes us P) (f : α → β) (hQ : ∀ a, P a → Q (f a)) :
    (Grammar.map f g).Denotes us Q := by
  intro ts hts
  obtain ⟨a, ha, hp⟩ := hg ts hts
  exact ⟨f a, ⟨a, ha, rfl⟩, hQ a hp⟩

theorem skip (hg : g.Denotes us P) (hh : h.Denotes vs Q) :
    (Grammar.skip g h).Denotes (us ++ vs) Q := (hg.seq hh).map _ fun _ h => h.2

theorem keep (hg : g.Denotes us P) (hh : h.Denotes vs Q) :
    (Grammar.keep g h).Denotes (us ++ vs) P := (hg.seq hh).map _ fun _ h => h.1

theorem located (hg : g.Denotes us P) : (Grammar.located g).Denotes us fun l => P l.value := by
  intro ts hts
  obtain ⟨a, ha, hp⟩ := hg ts hts
  exact ⟨⟨a, cover ts⟩, ⟨ha, rfl⟩, hp⟩

theorem either_left (hg : g.Denotes us P) (g' : Grammar α) :
    (Grammar.either g g').Denotes us P := by
  intro ts hts
  obtain ⟨a, ha, hp⟩ := hg ts hts
  exact ⟨a, .inl ha, hp⟩

theorem either_right {g' : Grammar α} (hg : g'.Denotes us P) (g : Grammar α) :
    (Grammar.either g g').Denotes us P := by
  intro ts hts
  obtain ⟨a, ha, hp⟩ := hg ts hts
  exact ⟨a, .inr ha, hp⟩

theorem optional_none (g : Grammar α) : (Grammar.optional g).Denotes [] (· = none) := by
  intro ts hts
  exact ⟨none, List.map_eq_nil_iff.mp hts, rfl⟩

theorem optional_some (hg : g.Denotes us P) :
    (Grammar.optional g).Denotes us fun o => ∃ a, o = some a ∧ P a := by
  intro ts hts
  obtain ⟨a, ha, hp⟩ := hg ts hts
  exact ⟨some a, ha, a, rfl, hp⟩

theorem enclosed {opening closing : Symbol} (hg : g.Denotes us P) :
    (Grammar.enclosed opening closing g).Denotes
      (.symbol opening :: (us ++ [.symbol closing])) P :=
  (exactly (.symbol opening)).skip (hg.keep (exactly (.symbol closing)))

section Lists

variable {γ : Type} {f : γ → List Token} {R : γ → α → Prop} {xs : List γ}

theorem many (hg : ∀ x ∈ xs, g.Denotes (f x) (R x)) :
    (Grammar.many g).Denotes (xs.flatMap f) (List.Forall₂ R xs) := by
  induction xs with
  | nil =>
    intro ts hts
    cases List.map_eq_nil_iff.mp hts
    exact ⟨[], .nil, .nil⟩
  | cons x rest ih =>
    intro ts hts
    obtain ⟨ts₁, ts₂, rfl, h₁, h₂⟩ := List.map_eq_append_iff.mp hts
    obtain ⟨a, ha, hr⟩ := hg x List.mem_cons_self ts₁ h₁
    obtain ⟨as, has, hrs⟩ := ih (fun y hy => hg y (List.mem_cons_of_mem _ hy)) ts₂ h₂
    exact ⟨a :: as, .cons ha has, .cons hr hrs⟩

theorem list (hg : ∀ x ∈ xs, g.Denotes (f x) (R x)) :
    (Grammar.list g).Denotes (commaTokens (xs.map f)) (List.Forall₂ R xs) := by
  induction xs with
  | nil =>
    intro ts hts
    cases List.map_eq_nil_iff.mp hts
    exact ⟨[], .nil, .nil⟩
  | cons x rest ih =>
    intro ts hts
    cases rest with
    | nil =>
      obtain ⟨a, ha, hr⟩ := hg x List.mem_cons_self ts hts
      exact ⟨[a], .last ha, .cons hr .nil⟩
    | cons y rest =>
      obtain ⟨ts₁, ts₂, rfl, h₁, h₂⟩ := List.map_eq_append_iff.mp hts
      obtain ⟨separator, ts₃, rfl, hseparator, h₃⟩ := List.map_eq_cons_iff.mp h₂
      obtain ⟨a, ha, hr⟩ := hg x List.mem_cons_self ts₁ h₁
      obtain ⟨as, has, hrs⟩ := ih (fun z hz => hg z (List.mem_cons_of_mem _ hz)) ts₃ h₃
      exact ⟨a :: as, .cons ha hseparator has, .cons hr hrs⟩

theorem bracketed (hg : ∀ x ∈ xs, g.Denotes (f x) (R x)) :
    (Grammar.bracketed g).Denotes (bracketTokens (xs.map f)) (List.Forall₂ R xs) :=
  (list hg).enclosed

end Lists

/-- One sequence after another. -/
theorem many_append {P Q : List α → Prop} (hp : (Grammar.many g).Denotes us P)
    (hq : (Grammar.many g).Denotes vs Q) :
    (Grammar.many g).Denotes (us ++ vs) fun as => ∃ bs cs, as = bs ++ cs ∧ P bs ∧ Q cs := by
  intro ts hts
  obtain ⟨ts₁, ts₂, rfl, h₁, h₂⟩ := List.map_eq_append_iff.mp hts
  obtain ⟨bs, hbs, hp⟩ := hp ts₁ h₁
  obtain ⟨cs, hcs, hq⟩ := hq ts₂ h₂
  exact ⟨bs ++ cs, Repeated.append hbs hcs, bs, cs, rfl, hp, hq⟩

end Denotes

end Grammar

end Source

/-- The declaration of an expression of a graph, each operand with its tensor. -/
structure ExpressionDecl.Declares (decl : ExpressionDecl) (g : Graph) (e : Expression) : Prop where
  result : decl.result.map Located.value = e.name
  operation : decl.operation.value = e.operation.name
  operands : List.Forall₂ (fun (slot : Slot) (operand : Located Operand) =>
    (g.producerName? slot.connector).getD "" = operand.value.value.value ∧
      ∃ type, operand.value.type = some type ∧ resolveType type = .ok slot.descriptor)
    e.inputs decl.operands
  output : match e.outputs with
    | [] => decl.output = none
    | slot :: _ => ∃ type, decl.output = some type ∧ resolveType type = .ok slot.descriptor
  loops : List.Forall₂ (fun (loop : LoopId) (number : Located UInt64) =>
    number.value.toNat = loop.toNat) e.loops decl.loops

/-- The declaration of a port of a loop. -/
structure PortDecl.Declares (decl : PortDecl) (g : Graph) (kind : PortKind) (q : LoopPort) :
    Prop where
  kind : decl.kind = kind
  value : decl.value.value = g.nameOf q.port.expr
  direction : decl.direction = q.port.direction
  index : decl.index.toNat = q.port.index
  dim : decl.dim.value.toNat = q.dim
  fixed : decl.fixed = !q.incremented

/-- The declaration of a loop: its entries, then its exits. -/
structure LoopDecl.Declares (decl : LoopDecl) (g : Graph) (id : LoopId) (r : LoopRecord) :
    Prop where
  id : decl.id.value.toNat = id.toNat
  workAmount : decl.workAmount.value = r.workAmount
  ports : ∃ entries exits, decl.ports = entries ++ exits ∧
    List.Forall₂ (fun q (port : Located PortDecl) => port.value.Declares g .entry q)
      r.entries entries ∧
    List.Forall₂ (fun q (port : Located PortDecl) => port.value.Declares g .exit q) r.exits exits

/-- The kernel declares the loops and the expressions of the program in order. -/
structure Kernel.Declares (kernel : Kernel) (p : Program) : Prop where
  loops : List.Forall₂ (fun x (decl : Located LoopDecl) => decl.value.Declares p.graph x.1 x.2)
    p.loops.entries kernel.loops
  expressions : List.Forall₂ (fun e (decl : Located ExpressionDecl) =>
    decl.value.Declares p.graph e) p.graph.expressions kernel.expressions

namespace Source

namespace Grammar

theorem denotes_extent (e : Extent) : extent.Denotes [e.token] (· = e) := by
  cases e <;> exact .token rfl

theorem denotes_number {n : Nat} (h : n < UInt64.size) :
    number.Denotes [.number (.ofNat n)] fun number => number.toNat = n := by
  have hread : number.Denotes [.number (.ofNat n)] (· = .ofNat n) := .token rfl
  refine hread.mono fun number hn => ?_
  rw [hn, UInt64.toNat_ofNat_of_lt' h]

theorem denotes_direction (d : Direction) : direction.Denotes [d.token] (· = d) := by
  cases d <;> exact .token rfl

theorem denotes_layout {d : Descriptor} (h : d.Described) (hi : d.layout.isIdentity = false) :
    (skip (keyword .layout) (bracketed number)).Denotes (.keyword .layout :: d.layout.tokens)
      fun axes => axes.map UInt64.toNat = d.layout := by
  have hnumbers := Denotes.bracketed fun axis ha => denotes_number (h.axes_lt hi axis ha)
  exact ((Denotes.exactly (.keyword .layout)).skip hnumbers).mono fun _ => map_eq_of_forall₂

/-- The layout clause of a tensor, which is left out if the axes are in order. -/
theorem denotes_layoutClause {d : Descriptor} (h : d.Described) :
    (optional (located (skip (keyword .layout) (bracketed number)))).Denotes
      (if d.layout.isIdentity then [] else .keyword .layout :: d.layout.tokens)
      fun clause => match clause with
        | none => d.layout = .identity d.shape.length
        | some axes => axes.value.length = d.shape.length ∧ axes.value.map UInt64.toNat = d.layout ∧
            d.layout.isPermutation = true := by
  cases hi : d.layout.isIdentity with
  | true =>
    refine (Denotes.optional_none _).mono fun clause hclause => ?_
    subst hclause
    have hid : d.layout = .identity d.layout.length := by simpa [Layout.isIdentity] using hi
    rcases h.layout_cases with hrank | ⟨hrank, -, -⟩
    · exact hrank
    · rwa [hrank] at hid
  | false =>
    refine (denotes_layout h hi).located.optional_some.mono fun clause hclause => ?_
    obtain ⟨axes, rfl, haxes⟩ := hclause
    rcases h.layout_cases with hid | ⟨hrank, hperm, -⟩
    · simp [hid, Layout.isIdentity, Layout.identity] at hi
    · exact ⟨by rw [← hrank, ← haxes, List.length_map], haxes, hperm⟩

/-- The tokens of a tensor denote a type that describes it. -/
theorem denotes_tensorType {d : Descriptor} (h : d.Described) :
    tensorType.Denotes d.tokens fun type => ∀ span, resolveType ⟨type, span⟩ = .ok d := by
  have hident : identifier.Denotes [.ident d.element.name] (· = d.element.name) := .token rfl
  have hshape := Denotes.bracketed fun e (_ : e ∈ d.shape) => (denotes_extent e).located
  have hall := hident.located.seq (hshape.seq (denotes_layoutClause h))
  refine (hall.map _ ?_ : tensorType.Denotes d.tokens _)
  rintro ⟨element, shape, layout⟩ ⟨helement, hshape, hlayout⟩ span
  exact resolveType_eq_ok.mpr ⟨helement, map_eq_of_forall₂ hshape, hlayout⟩

theorem denotes_typeClause {d : Descriptor} (h : d.Described) :
    typeClause.Denotes (.symbol .colon :: d.tokens)
      fun clause => ∃ type, clause = some type ∧ resolveType type = .ok d := by
  have hcolon := Denotes.exactly (.symbol .colon)
  have htype := (hcolon.skip (denotes_tensorType h).located).optional_some
  refine htype.mono fun clause hclause => ?_
  obtain ⟨type, rfl, hd⟩ := hclause
  exact ⟨type, rfl, hd type.span⟩

theorem denotes_operand {g : Graph} {slot : Slot} (h : slot.descriptor.Described) :
    operand.Denotes (g.operandTokens slot) fun operand =>
      (g.producerName? slot.connector).getD "" = operand.value.value ∧
        ∃ type, operand.type = some type ∧ resolveType type = .ok slot.descriptor := by
  have hvalue : value.Denotes [.value ((g.producerName? slot.connector).getD "")]
      (· = (g.producerName? slot.connector).getD "") := .token rfl
  refine (hvalue.located.seq (denotes_typeClause h)).map _ ?_
  rintro ⟨name, type⟩ ⟨hname, htype⟩
  exact ⟨hname.symm, htype⟩

theorem denotes_result (name : Option String) :
    (optional (keep (located value) (symbol .equals))).Denotes
      (match name with | some n => [.value n, .symbol .equals] | none => [])
      fun result => result.map Located.value = name := by
  cases name with
  | none =>
    refine (Denotes.optional_none _).mono fun result hresult => ?_
    rw [hresult]
    rfl
  | some n =>
    have hvalue : value.Denotes [.value n] (· = n) := .token rfl
    refine (hvalue.located.keep (.exactly (.symbol .equals))).optional_some.mono ?_
    rintro result ⟨name, rfl, hname⟩
    rw [Option.map_some, hname]

theorem denotes_output (outputs : List Slot) : (∀ s ∈ outputs, s.descriptor.Described) →
    typeClause.Denotes
      (match outputs with | [] => [] | slot :: _ => .symbol .colon :: slot.descriptor.tokens)
      fun output => match outputs with
        | [] => output = none
        | slot :: _ => ∃ type, output = some type ∧ resolveType type = .ok slot.descriptor := by
  intro h
  cases outputs with
  | nil => exact .optional_none _
  | cons slot rest => exact denotes_typeClause (h slot List.mem_cons_self)

theorem denotes_loop (id : LoopId) :
    number.Denotes [loopToken id] fun number => number.toNat = id.toNat :=
  denotes_number (Nat.lt_trans id.toNat_lt (by decide))

theorem denotes_loops (loops : List LoopId) :
    loopsClause.Denotes
      (if loops.isEmpty then []
        else .keyword .loops :: bracketTokens (loops.map fun loop => [loopToken loop]))
      (List.Forall₂ (fun loop (number : Located UInt64) => number.value.toNat = loop.toNat)
        loops) := by
  cases loops with
  | nil =>
    refine (Denotes.optional_none _).map _ fun clause hclause => ?_
    rw [hclause]
    exact .nil
  | cons loop rest =>
    have hnumbers := Denotes.bracketed fun id (_ : id ∈ loop :: rest) => (denotes_loop id).located
    refine ((Denotes.exactly (.keyword .loops)).skip hnumbers).optional_some.map _ ?_
    rintro clause ⟨numbers, rfl, hall⟩
    exact hall

theorem denotes_expression {g : Graph} {e : Expression}
    (h : ∀ s ∈ e.inputs ++ e.outputs, s.descriptor.Described) :
    expression.Denotes (g.expressionTokens e) fun decl => decl.Declares g e := by
  have hident : identifier.Denotes [.ident e.operation.name] (· = e.operation.name) := .token rfl
  have hoperand : ∀ s ∈ e.inputs, operand.Denotes (g.operandTokens s) _ := fun s hs =>
    denotes_operand (h s (List.mem_append_left _ hs))
  have hoperands := Denotes.list fun s hs => (hoperand s hs).located
  have hcall : (Grammar.enclosed .openParen .closeParen (list (located operand))).Denotes _ _ :=
    hoperands.enclosed
  have houtput := denotes_output e.outputs fun s hs => h s (List.mem_append_right _ hs)
  have hall := (denotes_result e.name).seq (hident.located.seq (hcall.seq
    (houtput.seq (denotes_loops e.loops))))
  unfold Graph.expressionTokens
  simp only [List.append_assoc, List.cons_append, List.nil_append] at hall ⊢
  refine hall.map _ ?_
  rintro ⟨result, operation, operands, output, loops⟩ ⟨hr, ho, hs, ht, hl⟩
  exact ⟨hr, ho, hs, ht, hl⟩

theorem denotes_port {g : Graph} {loop : LoopId} {q : LoopPort} (h : q.Fits g loop)
    {kind : PortKind} {k : Keyword} (hk : portKind.Denotes [.keyword k] (· = kind)) :
    port.Denotes (g.portTokens k q) fun decl => decl.Declares g kind q := by
  have hvalue : value.Denotes [.value (g.nameOf q.port.expr)] (· = g.nameOf q.port.expr) :=
    .token rfl
  have hindex : (Grammar.enclosed .openBracket .closeBracket number).Denotes _ _ :=
    (denotes_number h.index_lt).enclosed
  have hfixed : (optional (keyword .fixed)).Denotes
      (if q.incremented then [] else [.keyword .fixed])
      fun clause => clause.isSome = !q.incremented := by
    cases q.incremented with
    | true =>
      refine (Denotes.optional_none _).mono fun clause hclause => ?_
      rw [hclause]
      rfl
    | false =>
      refine (Denotes.exactly (.keyword .fixed)).optional_some.mono ?_
      rintro clause ⟨u, rfl, -⟩
      rfl
  have hall := hk.seq ((hvalue.located.keep (.exactly (.symbol .dot))).seq
    ((denotes_direction q.port.direction).seq (hindex.seq
      (((Denotes.exactly (.keyword .dim)).skip (denotes_number h.dim_lt).located).seq hfixed))))
  refine (hall.map _ ?_ : port.Denotes _ _)
  rintro ⟨kind, value, direction, index, dim, fixed⟩ ⟨hkind, hv, hd, hi, hdim, hf⟩
  exact ⟨hkind, hv, hd, hi, hdim, hf⟩

theorem denotes_loopDecl {g : Graph} {id : LoopId} {r : LoopRecord}
    (h : ∀ q ∈ r.ports, q.Fits g id) :
    Grammar.loop.Denotes (g.loopTokens id r) fun decl => decl.Declares g id r := by
  have hentry : portKind.Denotes [.keyword .entry] (· = .entry) := .token rfl
  have hexit : portKind.Denotes [.keyword .exit] (· = .exit) := .token rfl
  have hentries := Denotes.many fun q (hq : q ∈ r.entries) =>
    (denotes_port (h q (List.mem_append_left _ hq)) hentry).located
  have hexits := Denotes.many fun q (hq : q ∈ r.exits) =>
    (denotes_port (h q (List.mem_append_right _ hq)) hexit).located
  have hports :
      (Grammar.enclosed .openBrace .closeBrace (Grammar.many (located port))).Denotes _ _ :=
    (hentries.many_append hexits).enclosed
  have hnumber := (Denotes.exactly (.keyword .loop)).skip (denotes_loop id).located
  have hamount := (Denotes.exactly (.keyword .workAmount)).skip
    ((Denotes.exactly (.symbol .equals)).skip (denotes_extent r.workAmount).located)
  have hall := hnumber.seq (hamount.seq hports)
  unfold Graph.loopTokens
  simp only [List.append_assoc, List.cons_append, List.nil_append] at hall ⊢
  refine hall.map _ ?_
  rintro ⟨number, amount, ports⟩ ⟨hn, ha, hp⟩
  exact ⟨hn, ha, hp⟩

theorem forall₂_constructed {α β γ : Type} {c : β → γ} {R : α → β → Prop} {xs : List α}
    {zs : List γ} (h : List.Forall₂ (fun x z => ∃ y, z = c y ∧ R x y) xs zs) :
    ∃ ys, zs = ys.map c ∧ List.Forall₂ R xs ys := by
  induction h with
  | nil => exact ⟨[], rfl, .nil⟩
  | cons hz _ ih =>
    obtain ⟨y, rfl, hr⟩ := hz
    obtain ⟨ys, rfl, hrs⟩ := ih
    exact ⟨y :: ys, rfl, .cons hr hrs⟩

theorem denotes_loopItem {g : Graph} {id : LoopId} {r : LoopRecord}
    (h : ∀ q ∈ r.ports, q.Fits g id) :
    item.Denotes (g.loopTokens id r) fun i =>
      ∃ decl : Located LoopDecl, i = .loop decl ∧ decl.value.Declares g id r := by
  refine Denotes.either_left ((denotes_loopDecl h).located.map Item.loop ?_) _
  exact fun decl hdecl => ⟨decl, rfl, hdecl⟩

theorem denotes_expressionItem (g : Graph) {e : Expression}
    (h : ∀ s ∈ e.inputs ++ e.outputs, s.descriptor.Described) :
    item.Denotes (g.expressionTokens e) fun i =>
      ∃ decl : Located ExpressionDecl, i = .expression decl ∧ decl.value.Declares g e := by
  refine Denotes.either_right ((denotes_expression h).located.map Item.expression ?_) _
  exact fun decl hdecl => ⟨decl, rfl, hdecl⟩

/-- The tokens of a program denote the declarations of its loops and of its expressions. -/
theorem denotes_items {p : Program} (h : p.Listable) :
    items.Denotes p.tokens fun items => ∀ span, Kernel.Declares ⟨items, span⟩ p := by
  have hloops := Denotes.many fun x (hx : x ∈ p.loops.entries) => denotes_loopItem (h.fits x hx)
  have hexpressions := Denotes.many fun e (he : e ∈ p.graph.expressions) =>
    denotes_expressionItem p.graph (h.assembled.described e he)
  refine (hloops.many_append hexpressions).mono ?_
  rintro items ⟨loopItems, expressionItems, rfl, hl, he⟩ span
  obtain ⟨loops, rfl, hloops⟩ := forall₂_constructed hl
  obtain ⟨expressions, rfl, hexpressions⟩ := forall₂_constructed he
  constructor
  · have hkernel : Kernel.loops ⟨loops.map .loop ++ expressions.map .expression, span⟩ = loops := by
      simp [Kernel.loops, List.filterMap_append, List.filterMap_map]
    rw [hkernel]
    exact hloops
  · have hkernel : Kernel.expressions ⟨loops.map .loop ++ expressions.map .expression, span⟩ =
        expressions := by
      simp [Kernel.expressions, List.filterMap_append, List.filterMap_map]
    rw [hkernel]
    exact hexpressions

end Grammar

/-- A text that is cut into tokens is read as the kernel that these denote. -/
theorem readSource_of_spells {text : String} {tokens : List Token} {P : List Item → Prop}
    (hs : Spells text tokens) (hd : Grammar.items.Denotes tokens P) :
    ∃ kernel, readSource text = .ok kernel ∧ P kernel.items := by
  obtain ⟨htokens, hbad⟩ := hs.scan
  obtain ⟨items, hderives, hp⟩ := hd _ htokens
  have hread : readKernel text.utf8ByteSize (scan text).tokens =
      .ok ⟨items, kernelSpan text.utf8ByteSize (scan text).tokens⟩ :=
    readKernel_eq_ok.mpr ⟨hderives, rfl⟩
  refine ⟨⟨items, kernelSpan text.utf8ByteSize (scan text).tokens⟩, ?_, hp⟩
  unfold readSource parse
  simp only [hread, hbad, List.map_nil]

end Source

/-- The listing of a program is read as a kernel that declares it. -/
theorem Program.Listable.readSource_listing {p : Program} (h : p.Listable) :
    ∃ kernel, readSource p.listing = .ok kernel ∧ kernel.Declares p := by
  obtain ⟨kernel, hread, hdeclares⟩ := Source.readSource_of_spells h.spells_listing
    (Source.Grammar.denotes_items h)
  exact ⟨kernel, hread, hdeclares kernel.span⟩

end TensorLoops
