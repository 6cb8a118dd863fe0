import TensorLoops.Listing
import TensorLoops.Proofs.LoweredProgram
import TensorLoops.Proofs.Spelling

namespace TensorLoops

open Source

/-- Parts with a comma between two of them. -/
def commaTokens : List (List Token) → List Token
  | [] => []
  | [part] => part
  | part :: rest => part ++ .symbol .comma :: commaTokens rest

/-- Comma-separated parts in brackets. -/
def bracketTokens (parts : List (List Token)) : List Token :=
  .symbol .openBracket :: (commaTokens parts ++ [.symbol .closeBracket])

def Extent.token : Extent → Token
  | known n => .number n
  | dynamic => .symbol .question

def Layout.tokens (layout : Layout) : List Token :=
  bracketTokens (layout.map fun axis => [.number (.ofNat axis)])

def Descriptor.tokens (d : Descriptor) : List Token :=
  [.ident d.element.name] ++ bracketTokens (d.shape.map fun e => [e.token]) ++
    if d.layout.isIdentity then [] else .keyword .layout :: d.layout.tokens

def Direction.token : Direction → Token
  | input => .keyword .input
  | output => .keyword .output

def loopToken (id : LoopId) : Token := .number (.ofNat id.toNat)

namespace Graph

/-- The name of an expression that has one. -/
def nameOf (g : Graph) (id : ExprId) : String := (g.expressions[id]?.bind Expression.name).getD ""

def operandTokens (g : Graph) (slot : Slot) : List Token :=
  [.value ((g.producerName? slot.connector).getD ""), .symbol .colon] ++ slot.descriptor.tokens

def expressionTokens (g : Graph) (e : Expression) : List Token :=
  (match e.name with
    | some name => [.value name, .symbol .equals]
    | none => []) ++
    [.ident e.operation.name, .symbol .openParen] ++
    commaTokens (e.inputs.map g.operandTokens) ++ [.symbol .closeParen] ++
    (match e.outputs with
      | [] => []
      | slot :: _ => .symbol .colon :: slot.descriptor.tokens) ++
    if e.loops.isEmpty then []
    else .keyword .loops :: bracketTokens (e.loops.map fun loop => [loopToken loop])

def portTokens (g : Graph) (keyword : Keyword) (q : LoopPort) : List Token :=
  [.keyword keyword, .value (g.nameOf q.port.expr), .symbol .dot, q.port.direction.token,
      .symbol .openBracket, .number (.ofNat q.port.index), .symbol .closeBracket, .keyword .dim,
      .number (.ofNat q.dim)] ++
    if q.incremented then [] else [.keyword .fixed]

def loopTokens (g : Graph) (id : LoopId) (r : LoopRecord) : List Token :=
  [.keyword .loop, loopToken id, .keyword .workAmount, .symbol .equals, r.workAmount.token,
      .symbol .openBrace] ++
    r.entries.flatMap (g.portTokens .entry) ++ r.exits.flatMap (g.portTokens .exit) ++
    [.symbol .closeBrace]

end Graph

def Program.tokens (p : Program) : List Token :=
  p.loops.entries.flatMap (fun x => p.graph.loopTokens x.1 x.2) ++
    p.graph.expressions.flatMap p.graph.expressionTokens

theorem separates_symbol (s : Symbol) : Separates s.char.toString [.symbol s] := by
  cases s <;> decide +kernel

theorem spells_extent (e : Extent) : Spells e.text [e.token] := by
  cases e with
  | dynamic => exact (separates_symbol .question).toSpells
  | known n =>
    have h := spells_number n.toNat_lt
    rwa [UInt64.ofNat_toNat] at h

theorem spells_loop (id : LoopId) : Spells (loopText id) [loopToken id] :=
  spells_number (Nat.lt_trans id.toNat_lt (by decide))

section Lists

variable {α : Type} {f : α → String} {g : α → List Token} {xs : List α}

theorem spells_commaSeparated (h : ∀ x ∈ xs, Spells (f x) (g x)) :
    Spells (Text.commaSeparated (xs.map f)) (commaTokens (xs.map g)) := by
  unfold Text.commaSeparated
  induction xs with
  | nil => exact spells_empty
  | cons x rest ih =>
    have hx := h x List.mem_cons_self
    have hrest := ih fun y hy => h y (List.mem_cons_of_mem _ hy)
    cases rest with
    | nil => simpa [commaTokens] using hx
    | cons y rest =>
      have hcomma : Separates ", " [.symbol .comma] := by decide +kernel
      rw [List.map_cons, List.map_cons, String.intercalate_cons_cons]
      have hall := hx.between hcomma hrest
      simpa [commaTokens] using hall

theorem spells_bracketed (h : ∀ x ∈ xs, Spells (f x) (g x)) :
    SpellsTail (Text.bracketed (xs.map f)) (bracketTokens (xs.map g)) := by
  have hopen := separates_symbol .openBracket
  have hclose := separates_symbol .closeBracket
  exact (hopen.append (spells_commaSeparated h)).append hclose.toSpellsTail

end Lists

theorem spells_element (t : ElementType) : Spells t.name [.ident t.name] := by
  cases t <;> decide +kernel

theorem spells_operation (op : Operation) : Spells op.name [.ident op.name] := by
  cases op <;> decide +kernel

theorem spells_keyword (k : Keyword) : Spells k.text [.keyword k] := by
  cases k <;> decide +kernel

/-- A layout keeps the axes in order, or it has been written down. -/
theorem Descriptor.Described.layout_cases {d : Descriptor} (h : d.Described) :
    d.layout = .identity d.shape.length ∨ d.layout.length = d.shape.length ∧
      d.layout.isPermutation = true ∧ ∀ axis ∈ d.layout, axis < UInt64.size := by
  obtain ⟨type, ht⟩ := h
  obtain ⟨-, -, hl⟩ := resolveType_eq_ok.mp ht
  cases hlayout : type.value.layout with
  | none =>
    rw [hlayout] at hl
    exact .inl hl
  | some axes =>
    rw [hlayout] at hl
    obtain ⟨hlen, haxes, hperm⟩ := hl
    refine .inr ⟨by rw [← haxes, List.length_map, hlen], hperm, fun axis ha => ?_⟩
    rw [← haxes] at ha
    obtain ⟨n, -, rfl⟩ := List.mem_map.mp ha
    exact n.toNat_lt

/-- A layout that is written holds numbers that can be read. -/
theorem Descriptor.Described.axes_lt {d : Descriptor} (h : d.Described)
    (hi : d.layout.isIdentity = false) : ∀ axis ∈ d.layout, axis < UInt64.size := by
  rcases h.layout_cases with hid | ⟨-, -, haxes⟩
  · simp [hid, Layout.isIdentity, Layout.identity] at hi
  · exact haxes

theorem spells_descriptor {d : Descriptor} (h : d.Described) : Spells d.text d.tokens := by
  have hshape : SpellsTail (shapeText d.shape) (bracketTokens (d.shape.map fun e => [e.token])) :=
    spells_bracketed fun e _ => spells_extent e
  have hhead := (spells_element d.element).append_opens hshape.toSpells hshape.opens
  unfold Descriptor.text Descriptor.tokens
  cases hi : d.layout.isIdentity with
  | true => simpa using hhead
  | false =>
    have haxes : SpellsTail d.layout.text d.layout.tokens :=
      spells_bracketed fun axis ha => spells_number (h.axes_lt hi axis ha)
    have hword : Separates " layout " [.keyword .layout] := by decide +kernel
    simpa [String.append_assoc] using hhead.between hword haxes.toSpells

namespace Program

/-- What a listing needs of a program: it is well formed, and its values are named by words. -/
structure Listable (p : Program) : Prop where
  assembled : p.graph.Assembled p.loops.ids
  fits : ∀ x ∈ p.loops.entries, ∀ q ∈ x.2.ports, q.Fits p.graph x.1
  names : ∀ e ∈ p.graph.expressions, ∀ n, e.name = some n → IsName n

variable {p : Program}

/-- The producer of an operand, as it is written. -/
theorem producerText_eq {slot : Slot} {n : String}
    (h : p.graph.producerName? slot.connector = some n) : p.producerText slot = "%" ++ n := by
  obtain ⟨c, e, hc, he, hn⟩ := Graph.producerName?_eq_some.mp h
  simp [producerText, Graph.connector, hc, Graph.expression, he, Expression.label, hn]

theorem spells_operand {slot : Slot} {n : String}
    (h : p.graph.producerName? slot.connector = some n) (hn : IsName n)
    (hd : slot.descriptor.Described) :
    Spells (p.operandText slot) (p.graph.operandTokens slot) := by
  have hcolon : Separates " : " [.symbol .colon] := by decide +kernel
  unfold operandText Graph.operandTokens
  rw [producerText_eq h, h]
  exact (spells_value hn).between hcolon (spells_descriptor hd)

/-- The names behind operands, and their tensors. -/
theorem Listable.operand (h : p.Listable) {e : Expression} (he : e ∈ p.graph.expressions)
    {slot : Slot} (hs : slot ∈ e.inputs) :
    ∃ n, p.graph.producerName? slot.connector = some n ∧ IsName n ∧ slot.descriptor.Described := by
  obtain ⟨n, hn⟩ := h.assembled.produced e he slot hs
  obtain ⟨c, producer, -, hp, hname⟩ := Graph.producerName?_eq_some.mp hn
  exact ⟨n, hn, h.names producer (List.mem_of_getElem? hp) n hname,
    h.assembled.described e he slot (List.mem_append_left _ hs)⟩

theorem spells_result (name : Option String) : (∀ n, name = some n → IsName n) →
    SpellsLine (match name with | some n => "%" ++ n ++ " = " | none => "")
      (match name with | some n => [.value n, .symbol .equals] | none => []) := by
  intro h
  cases name with
  | none => exact .empty
  | some n =>
    have hequals : Separates " = " [.symbol .equals] := by decide +kernel
    exact (spells_value (h n rfl)).append_separator hequals

theorem spells_output (outputs : List Slot) : (∀ s ∈ outputs, s.descriptor.Described) →
    SpellsTail (match outputs with | [] => "" | slot :: _ => " : " ++ slot.descriptor.text)
      (match outputs with | [] => [] | slot :: _ => .symbol .colon :: slot.descriptor.tokens) := by
  intro h
  cases outputs with
  | nil => exact .empty
  | cons slot rest =>
    have hcolon : Separates " : " [.symbol .colon] := by decide +kernel
    exact hcolon.append (spells_descriptor (h slot List.mem_cons_self))

theorem spells_loops (loops : List LoopId) :
    SpellsTail (if loops.isEmpty then "" else " loops " ++ Text.bracketed (loops.map loopText))
      (if loops.isEmpty then []
        else .keyword .loops :: bracketTokens (loops.map fun loop => [loopToken loop])) := by
  cases loops with
  | nil => exact .empty
  | cons loop rest =>
    have hword : Separates " loops " [.keyword .loops] := by decide +kernel
    exact hword.append (spells_bracketed fun id _ => spells_loop id).toSpells

theorem Listable.spells_expression (h : p.Listable) {e : Expression}
    (he : e ∈ p.graph.expressions) :
    SpellsLine (p.expressionLine e) (p.graph.expressionTokens e) := by
  have hoperands : Spells (Text.commaSeparated (e.inputs.map p.operandText))
      (commaTokens (e.inputs.map p.graph.operandTokens)) := by
    refine spells_commaSeparated fun slot hs => ?_
    obtain ⟨n, hn, hname, hd⟩ := h.operand he hs
    exact spells_operand hn hname hd
  have houtput := spells_output e.outputs fun s hs =>
    h.assembled.described e he s (List.mem_append_right _ hs)
  have hrest := houtput.append (spells_loops e.loops)
  have hresult := spells_result e.name (h.names e he)
  have hopen : Separates "(" [.symbol .openParen] := separates_symbol .openParen
  have hclose : Separates ")" [.symbol .closeParen] := separates_symbol .closeParen
  have hcall := (hresult.append_closes (spells_operation e.operation) hresult.closes).between
    hopen hoperands
  have hline := (hcall.between hclose hrest.toSpells).line
  unfold expressionLine Graph.expressionTokens
  simp only [String.append_assoc, List.append_assoc, List.cons_append, List.nil_append] at hline ⊢
  exact hline

theorem portText_eq {port : Port} {e : Expression} {n : String}
    (he : p.graph.expressions[port.expr]? = some e) (hn : e.name = some n) :
    p.portText port =
      "%" ++ n ++ "." ++ port.direction.keyword ++ "[" ++ port.index.repr ++ "]" := by
  simp [portText, Graph.expression, he, Expression.label, hn]

theorem spells_direction (d : Direction) : Spells d.keyword [d.token] := by
  cases d <;> decide +kernel

theorem Listable.spells_port (h : p.Listable) {loop : LoopId} {q : LoopPort}
    (hq : q.Fits p.graph loop) {word : String} {keyword : Keyword} (hword : keyword.text = word) :
    SpellsLine (p.portLine word q) (p.graph.portTokens keyword q) := by
  obtain ⟨e, n, he, hn, -⟩ := hq.named
  have hname : p.graph.nameOf q.port.expr = n := by simp [Graph.nameOf, he, hn]
  have hindent : Separates "    " [] := by decide +kernel
  have hspace : Separates " " [] := by decide +kernel
  have hdot : Separates "." [.symbol .dot] := separates_symbol .dot
  have hopen : Separates "[" [.symbol .openBracket] := separates_symbol .openBracket
  have hclose : Separates "]" [.symbol .closeBracket] := separates_symbol .closeBracket
  have hdim : Separates " dim " [.keyword .dim] := by decide +kernel
  have hfixed : SpellsTail (if q.incremented then "" else " fixed")
      (if q.incremented then [] else [.keyword .fixed]) := by
    cases q.incremented with
    | true => exact .empty
    | false =>
      have hword : SpellsTail " fixed" [.keyword .fixed] := by
        constructor <;> decide +kernel
      exact hword
  have hvalue := spells_value (h.names e (List.mem_of_getElem? he) n hn)
  have hindex := (hvalue.between hdot (spells_direction q.port.direction)).between hopen
    (spells_number hq.index_lt)
  have hport := (hindex.append_separator hclose).toSpells
  have hkeyword := (hindent.append (hword ▸ spells_keyword keyword)).toSpells
  have hhead := (hkeyword.between hspace hport).between hdim (spells_number hq.dim_lt)
  have hall := hhead.append_opens hfixed.toSpells hfixed.opens
  unfold portLine Graph.portTokens
  rw [portText_eq he hn, hname]
  simpa only [List.append_assoc, List.cons_append, List.nil_append] using hall.line

theorem Listable.spells_record (h : p.Listable) {loop : LoopId} {r : LoopRecord}
    (hr : ∀ q ∈ r.ports, q.Fits p.graph loop) :
    SpellsLine (p.loopLines loop r) (p.graph.loopTokens loop r) := by
  have hloop : SpellsLine "loop " [.keyword .loop] := by
    constructor <;> decide +kernel
  have hamount : Separates " work_amount = " [.keyword .workAmount, .symbol .equals] := by
    decide +kernel
  have hopen : Separates " \x7b\n" [.symbol .openBrace] := by decide +kernel
  have hclose : Separates "\x7d\n" [.symbol .closeBrace] := by decide +kernel
  have hentries : SpellsLine (String.join (r.entries.map (p.portLine "entry")))
      (r.entries.flatMap (p.graph.portTokens .entry)) :=
    .join fun q hq => h.spells_port (hr q (List.mem_append_left _ hq)) rfl
  have hexits : SpellsLine (String.join (r.exits.map (p.portLine "exit")))
      (r.exits.flatMap (p.graph.portTokens .exit)) :=
    .join fun q hq => h.spells_port (hr q (List.mem_append_right _ hq)) rfl
  have hamounts := (hloop.append_closes (spells_loop loop) hloop.closes).between hamount
    (spells_extent r.workAmount)
  have hhead := hamounts.append_separator hopen
  have hall := ((hhead.append hentries).append hexits).append hclose.toSpellsLine
  unfold loopLines Graph.loopTokens
  simpa only [List.append_assoc, List.cons_append, List.nil_append] using hall

/-- A listing is cut into the tokens of its program. -/
theorem Listable.spells_listing (h : p.Listable) : Spells p.listing p.tokens := by
  have hloops : SpellsLine (String.join (p.loops.entries.map fun x => p.loopLines x.1 x.2))
      (p.loops.entries.flatMap fun x => p.graph.loopTokens x.1 x.2) :=
    .join fun x hx => h.spells_record (h.fits x hx)
  have hexpressions : SpellsLine (String.join (p.graph.expressions.map p.expressionLine))
      (p.graph.expressions.flatMap p.graph.expressionTokens) :=
    .join fun e he => h.spells_expression he
  exact (hloops.append hexpressions).toSpells

end Program

end TensorLoops
