import TensorLoops.Proofs.Denotation

namespace TensorLoops

/-- The part and all places in it, `offset` bytes further on. -/
def Located.shiftBoth {α : Type} (f : Nat → α → α) (offset : Nat) (l : Located α) : Located α :=
  (l.map (f offset)).shift offset

def TensorType.shift (offset : Nat) (t : TensorType) : TensorType where
  element := t.element.shift offset
  shape := t.shape.map (·.shift offset)
  layout := t.layout.map (·.shift offset)

def Operand.shift (offset : Nat) (o : Operand) : Operand where
  value := o.value.shift offset
  type := o.type.map (Located.shiftBoth TensorType.shift offset)

def ExpressionDecl.shift (offset : Nat) (d : ExpressionDecl) : ExpressionDecl where
  result := d.result.map (·.shift offset)
  operation := d.operation.shift offset
  operands := d.operands.map (Located.shiftBoth Operand.shift offset)
  output := d.output.map (Located.shiftBoth TensorType.shift offset)
  loops := d.loops.map (·.shift offset)

def PortDecl.shift (offset : Nat) (d : PortDecl) : PortDecl :=
  { d with value := d.value.shift offset, dim := d.dim.shift offset }

def LoopDecl.shift (offset : Nat) (d : LoopDecl) : LoopDecl where
  id := d.id.shift offset
  workAmount := d.workAmount.shift offset
  ports := d.ports.map (Located.shiftBoth PortDecl.shift offset)

/-- The declaration with all its places `offset` bytes further on. -/
def Item.shift (offset : Nat) : Item → Item
  | .loop d => .loop (d.shiftBoth LoopDecl.shift offset)
  | .expression d => .expression (d.shiftBoth ExpressionDecl.shift offset)

/-- The place `offset` bytes further back. -/
def Span.back (offset : Nat) (s : Span) : Span := ⟨s.start - offset, s.stop - offset⟩

namespace Source

theorem cover_shift {ts : Tokens} (hne : ts ≠ []) (offset : Nat) :
    cover (ts.map (·.shift offset)) = (cover ts).shift offset := by
  cases ts with
  | nil => exact absurd rfl hne
  | cons t ts =>
    have hmap : (t :: ts).map (·.shift offset) ≠ [] := List.cons_ne_nil _ _
    exact congrArg (Span.mk _) (congrArg (·.span.stop) (List.getLast_map hmap))

/-- The token at another place. -/
def moveToken (place : Span → Span) (t : Located Token) : Located Token := ⟨t.value, place t.span⟩

theorem map_moveToken_back (offset : Nat) (ts : Tokens) :
    (ts.map (·.shift offset)).map (moveToken (Span.back offset)) = ts := by
  have hback : moveToken (Span.back offset) ∘ (·.shift offset) = id := by
    funext t
    simp [moveToken, Span.back, Located.shift, Span.shift]
  rw [List.map_map, hback, List.map_id]

def Word.move (place : Span → Span) {x : Terminal} (t : Word x) : Word x :=
  ⟨moveToken place t.1, t.2⟩

namespace Form

/-- The same derivation from tokens at other places. -/
def move (place : Span → Span) : (f : Form) → f.Tree → f.Tree
  | terminal _, t => Word.move place t
  | seq f g, (t, u) => (f.move place t, g.move place u)
  | alt f _, .inl t => .inl (f.move place t)
  | alt _ g, .inr t => .inr (g.move place t)
  | opt f, t => Option.map (f.move place) t
  | star f, ts => List.map (f.move place) ts
  | list f, t => Option.map (fun (t, more, extra) =>
      (f.move place t, more.map (Prod.map (Word.move place) (f.move place)),
        extra.map (Word.move place))) t

/-- What comes after the first element of a list moves when its elements do. -/
theorem tailTokens_move (place : Span → Span) {f : Form}
    (hf : ∀ t, f.tokens (f.move place t) = (f.tokens t).map (moveToken place))
    (more : List (Comma × f.Tree)) (extra : Option Comma) :
    tailTokens f.tokens (more.map (Prod.map (Word.move place) (f.move place)))
        (extra.map (Word.move place)) =
      (tailTokens f.tokens more extra).map (moveToken place) := by
  induction more with
  | nil => cases extra <;> rfl
  | cons x more ih =>
    obtain ⟨comma, t⟩ := x
    rw [List.map_cons, Prod.map_apply, tailTokens, tailTokens, ih, hf, List.map_cons,
      List.map_append]
    rfl

theorem tokens_move (place : Span → Span) (f : Form) (t : f.Tree) :
    f.tokens (f.move place t) = (f.tokens t).map (moveToken place) := by
  induction f with
  | terminal x => rfl
  | seq f g ihf ihg =>
    obtain ⟨t, u⟩ := t
    rw [move, tokens, tokens, List.map_append, ihf, ihg]
  | alt f g ihf ihg =>
    cases t with
    | inl t => exact ihf t
    | inr t => exact ihg t
  | opt f ih =>
    cases t with
    | none => rfl
    | some t => exact ih t
  | star f ih =>
    have helements : ∀ ts : List f.Tree, (ts.map (f.move place)).flatMap f.tokens =
        (ts.flatMap f.tokens).map (moveToken place) := by
      intro ts
      simp only [List.flatMap_map, List.map_flatMap, ih]
    exact helements t
  | list f ih =>
    cases t with
    | none => rfl
    | some x =>
      obtain ⟨t, more, extra⟩ := x
      change f.tokens (f.move place t) ++ tailTokens f.tokens _ _ = _
      rw [ih, tailTokens_move place ih, ← List.map_append]
      rfl

theorem elements_move (place : Span → Span) {f : Form} (t : (Form.list f).Tree) :
    elements ((Form.list f).move place t) = (elements t).map (f.move place) := by
  match t with
  | none => rfl
  | some (t, more, extra) => simp [elements, move]

section Values

variable {α : Type} {place : Span → Span} {f : Form} {v : f.Tree → α} {φ : α → α}

theorem map_star_move (hv : ∀ t, v (f.move place t) = φ (v t)) (ts : List f.Tree) :
    (ts.map (f.move place)).map v = (ts.map v).map φ := by
  rw [List.map_map, List.map_map]
  exact List.map_congr_left fun t _ => hv t

theorem map_elements_move (hv : ∀ t, v (f.move place t) = φ (v t)) (t : (Form.list f).Tree) :
    (elements ((Form.list f).move place t)).map v = ((elements t).map v).map φ := by
  rw [elements_move]
  exact map_star_move hv (elements t)

theorem map_opt_move (hv : ∀ t, v (f.move place t) = φ (v t)) (t : Option f.Tree) :
    (t.map (f.move place)).map v = (t.map v).map φ := by
  cases t with
  | none => rfl
  | some t => exact congrArg some (hv t)

/-- A part that is not empty moves with its tokens. -/
theorem located_shift {offset : Nat} (hn : f.nullable = false)
    (hv : ∀ t, v (f.move (·.shift offset) t) = φ (v t)) (t : f.Tree) :
    f.located v (f.move (·.shift offset) t) = ((f.located v t).map φ).shift offset := by
  have hne : f.tokens t ≠ [] := fun hnil =>
    absurd ((nullable_of_tokens_eq_nil hnil).symm.trans hn) (by decide)
  have hcover := cover_shift hne offset
  unfold located
  rw [hv, tokens_move]
  exact congrArg (Located.mk _) hcover

/-- A part in which there are no places moves as a whole. -/
theorem located_shift_word {offset : Nat} (hn : f.nullable = false)
    (hv : ∀ t, v (f.move (·.shift offset) t) = v t) (t : f.Tree) :
    f.located v (f.move (·.shift offset) t) = (f.located v t).shift offset := by
  have hid : ∀ t, v (f.move (·.shift offset) t) = id (v t) := hv
  exact located_shift hn hid t

/-- What a single token denotes does not depend on where it stands. -/
theorem Describes.token_move {expected : Expected} {accept : Token → Option α}
    (hf : f.Describes v (.token expected accept)) (t : f.Tree) : v (f.move place t) = v t := by
  obtain ⟨u, hu, ha⟩ := (hf _ _).mpr ⟨t, rfl, rfl⟩
  obtain ⟨w, hw, hb⟩ := (hf _ _).mpr ⟨f.move place t, rfl, rfl⟩
  rw [tokens_move, hu] at hw
  cases hw
  exact Option.some.inj (hb.symm.trans ha)

theorem Describes.token_shift {expected : Expected} {accept : Token → Option α}
    (hf : f.Describes v (.token expected accept)) (hn : f.nullable = false) (offset : Nat)
    (t : f.Tree) : f.located v (f.move (·.shift offset) t) = (f.located v t).shift offset :=
  located_shift_word hn hf.token_move t

end Values

section Rules

variable (offset : Nat)

theorem layoutOf_move (place : Span → Span)
    (t : (Form.seq (keyword .layout) (brackets (.list number))).Tree) :
    layoutOf (Form.move place _ t) = layoutOf t := by
  obtain ⟨_, _, axes, _⟩ := t
  change (elements ((Form.list number).move place axes)).map numberOf = (elements axes).map numberOf
  rw [elements_move, List.map_map]
  exact List.map_congr_left fun t _ => describes_number.token_move t

theorem tensorOf_shift (t : tensor.Tree) :
    tensorOf (tensor.move (·.shift offset) t) = (tensorOf t).shift offset := by
  obtain ⟨element, ⟨_, shape, _⟩, layout⟩ := t
  change TensorType.mk _ _ _ = TensorType.mk _ _ _
  rw [TensorType.mk.injEq]
  exact ⟨describes_ident.token_shift rfl offset element,
    map_elements_move (describes_dim.token_shift rfl offset) shape,
    map_opt_move (located_shift_word rfl (layoutOf_move _)) layout⟩

theorem typedOf_shift (t : typed.Tree) :
    typedOf (typed.move (·.shift offset) t) =
      (typedOf t).map (Located.shiftBoth TensorType.shift offset) := by
  cases t with
  | none => rfl
  | some t => exact congrArg some (located_shift rfl (tensorOf_shift offset) t.2)

theorem operandOf_shift (t : operand.Tree) :
    operandOf (operand.move (·.shift offset) t) = (operandOf t).shift offset := by
  obtain ⟨name, type⟩ := t
  change Operand.mk _ _ = Operand.mk _ _
  rw [Operand.mk.injEq]
  exact ⟨describes_value.token_shift rfl offset name, typedOf_shift offset type⟩

theorem loopsOf_shift (t : (Form.opt (.seq (keyword .loops) (brackets (.list number)))).Tree) :
    loopsOf ((Form.opt _).move (·.shift offset) t) = (loopsOf t).map (·.shift offset) := by
  cases t with
  | none => rfl
  | some t => exact map_elements_move (describes_number.token_shift rfl offset) t.2.2.1

theorem expressionOf_shift (t : expression.Tree) :
    expressionOf (expression.move (·.shift offset) t) = (expressionOf t).shift offset := by
  obtain ⟨result, operation, ⟨_, operands, _⟩, output, loops⟩ := t
  change ExpressionDecl.mk _ _ _ _ _ = ExpressionDecl.mk _ _ _ _ _
  rw [ExpressionDecl.mk.injEq]
  refine ⟨?_, describes_ident.token_shift rfl offset operation,
    map_elements_move (located_shift rfl (operandOf_shift offset)) operands,
    typedOf_shift offset output, loopsOf_shift offset loops⟩
  cases result with
  | none => rfl
  | some t => exact congrArg some (describes_value.token_shift rfl offset t.1)

theorem portOf_shift (t : port.Tree) :
    portOf (port.move (·.shift offset) t) = (portOf t).shift offset := by
  obtain ⟨kind, ⟨name, _⟩, direction, ⟨_, index, _⟩, ⟨_, dim⟩, fixed⟩ := t
  change PortDecl.mk _ _ _ _ _ _ = PortDecl.mk _ _ _ _ _ _
  rw [PortDecl.mk.injEq]
  refine ⟨describes_portKind.token_move kind, describes_value.token_shift rfl offset name,
    describes_direction.token_move direction, describes_number.token_move index,
    describes_number.token_shift rfl offset dim, ?_⟩
  cases fixed <;> rfl

theorem loopOf_shift (t : loop.Tree) :
    loopOf (loop.move (·.shift offset) t) = (loopOf t).shift offset := by
  obtain ⟨⟨_, id⟩, ⟨_, _, amount⟩, ⟨_, ports, _⟩⟩ := t
  change LoopDecl.mk _ _ _ = LoopDecl.mk _ _ _
  rw [LoopDecl.mk.injEq]
  exact ⟨describes_number.token_shift rfl offset id, describes_dim.token_shift rfl offset amount,
    map_star_move (located_shift rfl (portOf_shift offset)) ports⟩

theorem itemOf_shift (t : item.Tree) :
    itemOf (item.move (·.shift offset) t) = (itemOf t).shift offset := by
  cases t with
  | inl t => exact congrArg Item.loop (located_shift rfl (loopOf_shift offset) t)
  | inr t => exact congrArg Item.expression (located_shift rfl (expressionOf_shift offset) t)

end Rules

end Form

variable {ts : Tokens} {is : List Item}

namespace Grammar

/-- Whether items are derived does not depend on where the tokens stand. -/
theorem exists_items_of_move (place : Span → Span) (h : items.Derives ts is) :
    ∃ js, items.Derives (ts.map (moveToken place)) js := by
  obtain ⟨t, rfl, rfl⟩ := (Form.describes_kernel _ _).mp h
  refine ⟨_, (Form.describes_kernel _ _).mpr ⟨Form.kernel.move place t, ?_, rfl⟩⟩
  exact Form.tokens_move place Form.kernel t

/-- From tokens that all stand further on by the same number of bytes the same items are derived,
with all their places further on by that number. -/
theorem derives_shift_items (offset : Nat) (h : items.Derives ts is) :
    items.Derives (ts.map (·.shift offset)) (is.map (Item.shift offset)) := by
  obtain ⟨t, rfl, rfl⟩ := (Form.describes_kernel _ _).mp h
  refine (Form.describes_kernel _ _).mpr ⟨Form.kernel.move (·.shift offset) t, ?_, ?_⟩
  · exact Form.tokens_move _ Form.kernel t
  · exact Form.map_star_move (Form.itemOf_shift offset) t

end Grammar

end Source

end TensorLoops
