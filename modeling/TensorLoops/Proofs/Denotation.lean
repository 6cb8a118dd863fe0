import TensorLoops.Proofs.KernelForms

namespace TensorLoops

namespace Source

namespace Form

/-- The grammar derives what the form derives, with the values of its trees. -/
def Describes {α : Type} (f : Form) (value : f.Tree → α) (g : Grammar α) : Prop :=
  ∀ ts a, g.Derives ts a ↔ ∃ t, f.tokens t = ts ∧ value t = a

variable {α β : Type} {f k : Form} {v : f.Tree → α} {w : k.Tree → β} {g : Grammar α} {h : Grammar β}

/-- One token of a kind. -/
theorem describes_word {x : Terminal} {v : Word x → α} {expected : Expected}
    {accept : Token → Option α}
    (ha : ∀ token span a, accept token = some a ↔ ∃ hx, v ⟨⟨token, span⟩, hx⟩ = a) :
    (terminal x).Describes v (.token expected accept) := by
  intro ts a
  constructor
  · intro hd
    obtain ⟨t, rfl, haccept⟩ := hd
    obtain ⟨hx, hv⟩ := (ha t.value t.span a).mp haccept
    exact ⟨⟨t, hx⟩, rfl, hv⟩
  · intro ht
    obtain ⟨t, rfl, hv⟩ := ht
    exact ⟨t.1, rfl, (ha t.1.value t.1.span a).mpr ⟨t.2, hv⟩⟩

/-- One token of two kinds. -/
theorem describes_words {x y : Terminal} {v : (alt (terminal x) (terminal y)).Tree → α}
    {expected : Expected} {accept : Token → Option α}
    (ha : ∀ token span a, accept token = some a ↔
      (∃ hx, v (.inl ⟨⟨token, span⟩, hx⟩) = a) ∨ ∃ hy, v (.inr ⟨⟨token, span⟩, hy⟩) = a) :
    (alt (terminal x) (terminal y)).Describes v (.token expected accept) := by
  intro ts a
  constructor
  · intro hd
    obtain ⟨t, rfl, haccept⟩ := hd
    rcases (ha t.value t.span a).mp haccept with ⟨hx, hv⟩ | ⟨hy, hv⟩
    · exact ⟨.inl ⟨t, hx⟩, rfl, hv⟩
    · exact ⟨.inr ⟨t, hy⟩, rfl, hv⟩
  · intro ht
    obtain ⟨t, rfl, hv⟩ := ht
    cases t with
    | inl t => exact ⟨t.1, rfl, (ha t.1.value t.1.span a).mpr (.inl ⟨t.2, hv⟩)⟩
    | inr t => exact ⟨t.1, rfl, (ha t.1.value t.1.span a).mpr (.inr ⟨t.2, hv⟩)⟩

theorem Describes.seq (hf : f.Describes v g) (hk : k.Describes w h) :
    (Form.seq f k).Describes (fun t => (v t.1, w t.2)) (.seq g h) := by
  intro ts ab
  obtain ⟨a, b⟩ := ab
  constructor
  · intro hd
    obtain ⟨us, vs, rfl, ha, hb⟩ := hd
    obtain ⟨t, rfl, rfl⟩ := (hf us a).mp ha
    obtain ⟨u, rfl, rfl⟩ := (hk vs b).mp hb
    exact ⟨(t, u), rfl, rfl⟩
  · intro ht
    obtain ⟨⟨t, u⟩, rfl, hv⟩ := ht
    cases hv
    exact ⟨_, _, rfl, (hf _ _).mpr ⟨t, rfl, rfl⟩, (hk _ _).mpr ⟨u, rfl, rfl⟩⟩

theorem Describes.map (hf : f.Describes v g) (φ : α → β) :
    f.Describes (fun t => φ (v t)) (.map φ g) := by
  intro ts b
  constructor
  · intro hd
    obtain ⟨a, ha, rfl⟩ := hd
    obtain ⟨t, rfl, rfl⟩ := (hf ts a).mp ha
    exact ⟨t, rfl, rfl⟩
  · intro ht
    obtain ⟨t, rfl, rfl⟩ := ht
    exact ⟨v t, (hf _ _).mpr ⟨t, rfl, rfl⟩, rfl⟩

theorem Describes.located (hf : f.Describes v g) : f.Describes (f.located v) (.located g) := by
  intro ts l
  obtain ⟨a, span⟩ := l
  constructor
  · intro hd
    obtain ⟨ha, rfl⟩ := hd
    obtain ⟨t, rfl, rfl⟩ := (hf ts a).mp ha
    exact ⟨t, rfl, rfl⟩
  · intro ht
    obtain ⟨t, rfl, hv⟩ := ht
    cases hv
    exact ⟨(hf _ _).mpr ⟨t, rfl, rfl⟩, rfl⟩

theorem Describes.either {w : k.Tree → α} {h : Grammar α} (hf : f.Describes v g)
    (hk : k.Describes w h) : (Form.alt f k).Describes (Sum.elim v w) (.either g h) := by
  intro ts a
  refine (or_congr (hf ts a) (hk ts a)).trans ⟨fun ht => ?_, fun ht => ?_⟩
  · rcases ht with ⟨t, htokens, hv⟩ | ⟨u, htokens, hv⟩
    · exact ⟨.inl t, htokens, hv⟩
    · exact ⟨.inr u, htokens, hv⟩
  · obtain ⟨t, htokens, hv⟩ := ht
    cases t with
    | inl t => exact .inl ⟨t, htokens, hv⟩
    | inr u => exact .inr ⟨u, htokens, hv⟩

theorem Describes.optional (hf : f.Describes v g) :
    (Form.opt f).Describes (Option.map v) (.optional g) := by
  intro ts o
  cases o with
  | none =>
    constructor
    · intro hd
      cases show ts = [] from hd
      exact ⟨none, rfl, rfl⟩
    · intro ht
      obtain ⟨t, rfl, hv⟩ := ht
      rw [Option.map_eq_none_iff.mp hv]
      rfl
  | some a =>
    refine (hf ts a).trans ⟨fun ht => ?_, fun ht => ?_⟩
    · obtain ⟨t, htokens, rfl⟩ := ht
      exact ⟨some t, htokens, rfl⟩
    · obtain ⟨t, htokens, hv⟩ := ht
      obtain ⟨t, rfl, rfl⟩ := Option.map_eq_some_iff.mp hv
      exact ⟨t, htokens, rfl⟩

theorem Describes.many (hf : f.Describes v g) :
    (Form.star f).Describes (List.map v) (.many g) := by
  intro ts as
  constructor
  · intro hd
    induction (show Repeated g.Derives ts as from hd) with
    | nil => exact ⟨[], rfl, rfl⟩
    | cons head _ ih =>
      obtain ⟨t, rfl, rfl⟩ := (hf _ _).mp head
      obtain ⟨us, rfl, rfl⟩ := ih ‹_›
      exact ⟨t :: us, rfl, rfl⟩
  · intro ht
    obtain ⟨us, rfl, rfl⟩ := ht
    have hrepeated : ∀ us : List f.Tree,
        Repeated g.Derives (us.flatMap f.tokens) (us.map v) := by
      intro us
      induction us with
      | nil => exact .nil
      | cons t us ih => exact .cons ((hf _ _).mpr ⟨t, rfl, rfl⟩) ih
    exact hrepeated us

theorem comma_value (comma : Comma) : comma.1.value = .symbol .comma := by
  obtain ⟨⟨token, span⟩, hcomma⟩ := comma
  cases token <;> cases hcomma
  rfl

/-- A list that has elements is derived with the values of these. -/
theorem listed_tokens (hd : ∀ t, g.Derives (f.tokens t) (v t)) (t : f.Tree)
    (more : List (Comma × f.Tree)) (extra : Option Comma) :
    Listed g.Derives (f.tokens t ++ tailTokens f.tokens more extra)
      (v t :: more.map fun x => v x.2) := by
  induction more generalizing t with
  | nil =>
    match extra with
    | none =>
      rw [tailTokens, List.append_nil]
      exact .last (hd t)
    | some comma => exact .cons (hd t) (comma_value comma) .nil
  | cons x more ih => exact .cons (hd t) (comma_value x.1) (ih x.2)

theorem Describes.list (hf : f.Describes v g) :
    (Form.list f).Describes (fun t => (elements t).map v) (.list g) := by
  intro ts as
  constructor
  · intro hd
    induction (show Listed g.Derives ts as from hd) with
    | nil => exact ⟨none, rfl, rfl⟩
    | last head =>
      obtain ⟨t, rfl, rfl⟩ := (hf _ _).mp head
      exact ⟨some (t, [], none), List.append_nil _, rfl⟩
    | @cons _ _ comma _ _ head separator _ ih =>
      obtain ⟨t, rfl, rfl⟩ := (hf _ _).mp head
      obtain ⟨tail, rfl, rfl⟩ := ih ‹_›
      have hcomma : Terminal.of comma.value = .symbol .comma := by
        rw [separator]
        rfl
      match tail with
      | none => exact ⟨some (t, [], some ⟨comma, hcomma⟩), rfl, rfl⟩
      | some (u, more, extra) => exact ⟨some (t, (⟨comma, hcomma⟩, u) :: more, extra), rfl, rfl⟩
  · intro ht
    obtain ⟨t, rfl, rfl⟩ := ht
    match t with
    | none => exact .nil
    | some (t, more, extra) =>
      have hlisted := listed_tokens (fun t => (hf _ _).mpr ⟨t, rfl, rfl⟩) t more extra
      have helements : (elements (some (t, more, extra) : (Form.list f).Tree)).map v =
          v t :: more.map fun x => v x.2 := by
        simp [elements, Function.comp_def]
      rw [← helements] at hlisted
      exact hlisted

theorem Describes.of_eq {v' : f.Tree → α} (hf : f.Describes v g) (hv : ∀ t, v t = v' t) :
    f.Describes v' g := by
  rwa [← funext hv]

theorem Describes.skip (hf : f.Describes v g) (hk : k.Describes w h) :
    (Form.seq f k).Describes (fun t => w t.2) (Grammar.skip g h) := (hf.seq hk).map Prod.snd

theorem Describes.keep (hf : f.Describes v g) (hk : k.Describes w h) :
    (Form.seq f k).Describes (fun t => v t.1) (Grammar.keep g h) := (hf.seq hk).map Prod.fst

theorem describes_keyword (k : Keyword) :
    (keyword k).Describes (fun _ => ()) (Grammar.keyword k) := by
  refine describes_word fun token span a => ?_
  cases token <;> simp

theorem describes_symbol (s : Symbol) :
    (symbol s).Describes (fun _ => ()) (Grammar.symbol s) := by
  refine describes_word fun token span a => ?_
  cases token <;> simp

theorem describes_number : number.Describes numberOf Grammar.number := by
  refine describes_word fun token span a => ?_
  cases token <;> simp [numberOf]

theorem describes_value : value.Describes valueOf Grammar.value := by
  refine describes_word fun token span a => ?_
  cases token <;> simp [valueOf]

theorem describes_ident : ident.Describes identOf Grammar.identifier := by
  refine describes_word fun token span a => ?_
  cases token <;> simp [identOf]

theorem describes_dim : dim.Describes dimOf Grammar.extent := by
  refine describes_words fun token span a => ?_
  rcases token with k | s | n | name | name
  case symbol => cases s <;> simp [dimOf]
  all_goals simp [dimOf, numberOf]

theorem describes_portKind :
    (Form.alt (keyword .entry) (keyword .exit)).Describes portKindOf Grammar.portKind := by
  refine describes_words fun token span a => ?_
  rcases token with k | s | n | name | name
  case keyword => cases k <;> simp [portKindOf]
  all_goals simp

theorem describes_direction :
    (Form.alt (keyword .input) (keyword .output)).Describes directionOf Grammar.direction := by
  refine describes_words fun token span a => ?_
  rcases token with k | s | n | name | name
  case keyword => cases k <;> simp [directionOf]
  all_goals simp

theorem Describes.enclosed (hf : f.Describes v g) (opening closing : Symbol) :
    (enclosed opening closing f).Describes (fun t => v t.2.1)
      (Grammar.enclosed opening closing g) :=
  (describes_symbol opening).skip (hf.keep (describes_symbol closing))

/-- A list in brackets has the values of its elements. -/
theorem Describes.bracketed (hf : f.Describes v g) :
    (brackets (.list f)).Describes (fun t => (elements t.2.1).map v) (Grammar.bracketed g) :=
  hf.list.enclosed .openBracket .closeBracket

theorem describes_tensor : tensor.Describes tensorOf Grammar.tensorType := by
  have helement := Describes.located describes_ident
  have hshape := Describes.bracketed (Describes.located describes_dim)
  have haxes := Describes.bracketed describes_number
  have hlayout := ((describes_keyword .layout).skip haxes).located.optional
  exact (helement.seq (hshape.seq hlayout)).map _

theorem describes_typed : typed.Describes typedOf Grammar.typeClause := by
  have htype := Describes.located describes_tensor
  exact ((describes_symbol .colon).skip htype).optional

theorem describes_operand : operand.Describes operandOf Grammar.operand := by
  have hname := Describes.located describes_value
  exact (hname.seq describes_typed).map _

theorem describes_loops :
    (Form.opt (.seq (keyword .loops) (brackets (.list number)))).Describes loopsOf
      Grammar.loopsClause := by
  have hids := Describes.bracketed (Describes.located describes_number)
  have hloops := (describes_keyword .loops).skip hids
  refine (hloops.optional.map (·.getD [])).of_eq fun t => ?_
  cases t <;> rfl

theorem describes_expression : expression.Describes expressionOf Grammar.expression := by
  have hname := Describes.located describes_value
  have hresult := (hname.keep (describes_symbol .equals)).optional
  have hoperation := Describes.located describes_ident
  have hoperand := Describes.located describes_operand
  have hoperands := hoperand.list.enclosed .openParen .closeParen
  have houtput := Describes.seq describes_typed describes_loops
  exact (hresult.seq (hoperation.seq (hoperands.seq houtput))).map _

theorem describes_port : port.Describes portOf Grammar.port := by
  have hname := Describes.located describes_value
  have hvalue := hname.keep (describes_symbol .dot)
  have hindex := Describes.enclosed describes_number .openBracket .closeBracket
  have hdim := (describes_keyword .dim).skip (Describes.located describes_number)
  have hfixed := (describes_keyword .fixed).optional
  have hplace := Describes.seq describes_direction (hindex.seq (hdim.seq hfixed))
  refine ((Describes.seq describes_portKind (hvalue.seq hplace)).map _).of_eq fun t => ?_
  obtain ⟨kind, name, direction, index, dim, fixed⟩ := t
  cases fixed <;> rfl

theorem describes_loop : loop.Describes loopOf Grammar.loop := by
  have hid := (describes_keyword .loop).skip (Describes.located describes_number)
  have hdim := Describes.located describes_dim
  have hamount := (describes_keyword .workAmount).skip ((describes_symbol .equals).skip hdim)
  have hport := Describes.located describes_port
  have hports := hport.many.enclosed .openBrace .closeBrace
  exact (hid.seq (hamount.seq hports)).map _

theorem describes_item : item.Describes itemOf Grammar.item := by
  have hloop := Describes.located describes_loop
  have hexpression := Describes.located describes_expression
  refine ((hloop.map _).either (hexpression.map _)).of_eq fun t => ?_
  cases t <;> rfl

/-- The form of kernels describes the grammar by which they are read. -/
theorem describes_kernel : kernel.Describes itemsOf Grammar.items :=
  Describes.many describes_item

end Form

end Source

end TensorLoops
