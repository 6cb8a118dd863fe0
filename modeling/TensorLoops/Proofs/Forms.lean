import TensorLoops.Source.Grammar

namespace TensorLoops

namespace Source

/-- The kinds of tokens that a grammar tells apart. -/
inductive Terminal where
  | keyword (k : Keyword)
  | symbol (s : Symbol)
  | number
  | value
  | ident
  deriving DecidableEq, Repr

def Terminal.of : Token → Terminal
  | .keyword k => .keyword k
  | .symbol s => .symbol s
  | .number _ => .number
  | .value _ => .value
  | .ident _ => .ident

namespace Terminal

@[simp]
theorem of_keyword (k : Keyword) : of (.keyword k) = .keyword k := rfl

@[simp]
theorem of_symbol (s : Symbol) : of (.symbol s) = .symbol s := rfl

@[simp]
theorem of_number (n : UInt64) : of (.number n) = .number := rfl

@[simp]
theorem of_value (name : String) : of (.value name) = .value := rfl

@[simp]
theorem of_ident (name : String) : of (.ident name) = .ident := rfl

end Terminal

/-- A token of a kind, with its place. -/
abbrev Word (x : Terminal) := { t : Located Token // Terminal.of t.value = x }

abbrev Comma := Word (.symbol .comma)

/-- The right-hand side of a rule. -/
inductive Form where
  | terminal (x : Terminal)
  /-- One after the other. -/
  | seq (f g : Form)
  /-- One of two. -/
  | alt (f g : Form)
  /-- Once or not at all. -/
  | opt (f : Form)
  /-- Any number of times. -/
  | star (f : Form)
  /-- Any number of times with commas in between. If there is at least one, one more comma may
  follow the last. -/
  | list (f : Form)

namespace Form

/-- The ways to derive something from a form. -/
def Tree : Form → Type
  | terminal x => Word x
  | seq f g => f.Tree × g.Tree
  | alt f g => f.Tree ⊕ g.Tree
  | opt f => Option f.Tree
  | star f => List f.Tree
  | list f => Option (f.Tree × List (Comma × f.Tree) × Option Comma)

/-- The tokens of a list after its first element. -/
def tailTokens {α : Type} (tokens : α → Tokens) : List (Comma × α) → Option Comma → Tokens
  | [], none => []
  | [], some comma => [comma.1]
  | (comma, a) :: more, extra => comma.1 :: (tokens a ++ tailTokens tokens more extra)

/-- The tokens that are derived, from the first to the last. -/
def tokens : (f : Form) → f.Tree → Tokens
  | terminal _, t => [t.1]
  | seq f g, (t, u) => f.tokens t ++ g.tokens u
  | alt f _, .inl t => f.tokens t
  | alt _ g, .inr t => g.tokens t
  | opt _, none => []
  | opt f, some t => f.tokens t
  | star f, ts => ts.flatMap f.tokens
  | list _, none => []
  | list f, some (t, more, extra) => f.tokens t ++ tailTokens f.tokens more extra

/-- The elements of a list in order, without the commas. -/
def elements {f : Form} : (list f).Tree → List f.Tree
  | none => []
  | some (t, more, _) => t :: more.map Prod.snd

/-- Whether nothing at all is derived. -/
def nullable : Form → Bool
  | terminal _ => false
  | seq f g => f.nullable && g.nullable
  | alt f g => f.nullable || g.nullable
  | opt _ | star _ | list _ => true

/-- The kinds of tokens that can come first. -/
def first : Form → List Terminal
  | terminal x => [x]
  | seq f g => f.first ++ if f.nullable then g.first else []
  | alt f g => f.first ++ g.first
  | opt f | star f => f.first
  | list f => .symbol .comma :: f.first

/-- The kinds of tokens with which a derivation that could end may go on. -/
def next : Form → List Terminal
  | terminal _ => []
  | seq f g => g.next ++ if g.nullable then f.next else []
  | alt f g => f.next ++ g.next
  | opt f | star f => f.first ++ f.next
  | list f => .symbol .comma :: (f.first ++ f.next)

/-- The next token decides how to go on. -/
def Predictive : Form → Prop
  | terminal _ => True
  | seq f g => f.Predictive ∧ g.Predictive ∧ ∀ x ∈ f.next, x ∉ g.first
  | alt f g => f.Predictive ∧ g.Predictive ∧ f.nullable = false ∧ g.nullable = false ∧
      ∀ x ∈ f.first, x ∉ g.first
  | opt f => f.Predictive ∧ f.nullable = false
  | star f => f.Predictive ∧ f.nullable = false ∧ ∀ x ∈ f.next, x ∉ f.first
  | list f => f.Predictive ∧ f.nullable = false ∧ .symbol .comma ∉ f.next

instance decidablePredictive : (f : Form) → Decidable f.Predictive
  | terminal _ => isTrue trivial
  | seq f g =>
    have := decidablePredictive f
    have := decidablePredictive g
    inferInstanceAs (Decidable (_ ∧ _ ∧ _))
  | alt f g =>
    have := decidablePredictive f
    have := decidablePredictive g
    inferInstanceAs (Decidable (_ ∧ _ ∧ _ ∧ _ ∧ _))
  | opt f =>
    have := decidablePredictive f
    inferInstanceAs (Decidable (_ ∧ _))
  | star f =>
    have := decidablePredictive f
    inferInstanceAs (Decidable (_ ∧ _ ∧ _))
  | list f =>
    have := decidablePredictive f
    inferInstanceAs (Decidable (_ ∧ _ ∧ _))

/-- The kind of the first token, if there is one, satisfies `P`. -/
def Heads (P : Terminal → Prop) (ts : Tokens) : Prop := ∀ t ∈ ts.head?, P (Terminal.of t.value)

variable {P Q : Terminal → Prop} {f g : Form}

theorem heads_nil (P : Terminal → Prop) : Heads P [] := fun _ ht => nomatch ht

theorem heads_cons {t : Located Token} {ts : Tokens} :
    Heads P (t :: ts) ↔ P (Terminal.of t.value) := by
  simp [Heads]

theorem heads_word {x : Terminal} {t : Word x} {ts : Tokens} : Heads P (t.1 :: ts) ↔ P x := by
  rw [heads_cons, t.2]

theorem Heads.imp {ts : Tokens} (h : Heads P ts) (hPQ : ∀ x, P x → Q x) : Heads Q ts :=
  fun t ht => hPQ _ (h t ht)

/-- After an element of a list comes a comma, or what follows the list. -/
theorem heads_tail {α : Type} {tokens : α → Tokens} (hcomma : P (.symbol .comma)) {rest : Tokens}
    (hrest : Heads P rest) (more : List (Comma × α)) (extra : Option Comma) :
    Heads P (tailTokens tokens more extra ++ rest) := by
  match more, extra with
  | [], none => exact hrest
  | [], some comma => exact heads_word.mpr hcomma
  | (comma, a) :: more, extra => exact heads_word.mpr hcomma

theorem nullable_of_tokens_eq_nil {t : f.Tree} (h : f.tokens t = []) : f.nullable = true := by
  induction f with
  | terminal x => cases h
  | seq f g ihf ihg =>
    obtain ⟨hf, hg⟩ := List.append_eq_nil_iff.mp h
    exact Bool.and_eq_true_iff.mpr ⟨ihf hf, ihg hg⟩
  | alt f g ihf ihg =>
    cases t with
    | inl t => exact Bool.or_eq_true_iff.mpr (.inl (ihf h))
    | inr t => exact Bool.or_eq_true_iff.mpr (.inr (ihg h))
  | opt f _ | star f _ | list f _ => rfl

/-- What is derived begins as the form says, or else it is empty and what follows begins. -/
theorem heads_tokens (hfirst : ∀ x ∈ f.first, P x) {t : f.Tree} {rest : Tokens}
    (hrest : f.nullable = true → Heads P rest) : Heads P (f.tokens t ++ rest) := by
  induction f generalizing rest with
  | terminal x => exact heads_word.mpr (hfirst x List.mem_cons_self)
  | seq f g ihf ihg =>
    obtain ⟨t, u⟩ := t
    simp only [first, List.mem_append] at hfirst
    simp only [nullable, Bool.and_eq_true] at hrest
    rw [tokens, List.append_assoc]
    refine ihf (fun x hx => hfirst x (.inl hx)) fun hf => ?_
    exact ihg (fun x hx => hfirst x (.inr (by rwa [if_pos hf]))) fun hg => hrest ⟨hf, hg⟩
  | alt f g ihf ihg =>
    simp only [first, List.mem_append] at hfirst
    simp only [nullable, Bool.or_eq_true] at hrest
    cases t with
    | inl t => exact ihf (fun x hx => hfirst x (.inl hx)) fun hf => hrest (.inl hf)
    | inr t => exact ihg (fun x hx => hfirst x (.inr hx)) fun hg => hrest (.inr hg)
  | opt f ih =>
    cases t with
    | none => exact hrest rfl
    | some t => exact ih hfirst fun _ => hrest rfl
  | star f ih =>
    have htokens : ∀ ts : List f.Tree, Heads P (ts.flatMap f.tokens ++ rest) := by
      intro ts
      induction ts with
      | nil => exact hrest rfl
      | cons t ts ihts =>
        rw [List.flatMap_cons, List.append_assoc]
        exact ih hfirst fun _ => ihts
    exact htokens t
  | list f ih =>
    obtain ⟨hcomma, hfirst⟩ := List.forall_mem_cons.mp hfirst
    match t with
    | none => exact hrest rfl
    | some (t, more, extra) =>
      rw [tokens, List.append_assoc]
      exact ih hfirst fun _ => heads_tail hcomma (hrest rfl) more extra

/-- What does not begin like something that is never empty is something else. -/
theorem ne_tokens_append (hn : f.nullable = false) {rest : Tokens}
    (h : Heads (· ∉ f.first) rest) (t : f.Tree) (rest' : Tokens) : rest ≠ f.tokens t ++ rest' := by
  intro hrest
  rw [hrest] at h
  have hfirst : Heads (· ∈ f.first) (f.tokens t ++ rest') :=
    heads_tokens (fun x hx => hx) fun hnull => absurd (hnull.symm.trans hn) (by decide)
  cases htokens : f.tokens t with
  | nil => exact absurd ((nullable_of_tokens_eq_nil htokens).symm.trans hn) (by decide)
  | cons u us =>
    rw [htokens] at h hfirst
    exact heads_cons.mp h (heads_cons.mp hfirst)

/-- A predictive form has taken its tokens from the front in one way only, if what follows cannot go
on with it. -/
def Decided (f : Form) : Prop :=
  ∀ (t u : f.Tree) (rest rest' : Tokens), Heads (· ∉ f.next) rest → Heads (· ∉ f.next) rest' →
    f.tokens t ++ rest = f.tokens u ++ rest' → t = u ∧ rest = rest'

theorem Decided.seq (hf : f.Decided) (hg : g.Decided) (hnext : ∀ x ∈ f.next, x ∉ g.first) :
    (Form.seq f g).Decided := by
  intro v v' rest rest' hr hr' h
  obtain ⟨t, u⟩ := v
  obtain ⟨t', u'⟩ := v'
  rw [tokens, tokens, List.append_assoc, List.append_assoc] at h
  have hstops : ∀ (w : g.Tree) (ts : Tokens), Heads (· ∉ (Form.seq f g).next) ts →
      Heads (· ∉ g.next) ts ∧ Heads (· ∉ f.next) (g.tokens w ++ ts) := by
    intro w ts hts
    refine ⟨hts.imp fun x hx hm => hx (List.mem_append_left _ hm), heads_tokens ?_ fun hnull => ?_⟩
    · exact fun x hx hm => hnext x hm hx
    · exact hts.imp fun x hx hm => hx (List.mem_append_right _ (by rwa [if_pos hnull]))
  obtain ⟨hg_rest, hf_rest⟩ := hstops u rest hr
  obtain ⟨hg_rest', hf_rest'⟩ := hstops u' rest' hr'
  obtain ⟨rfl, hsecond⟩ := hf t t' _ _ hf_rest hf_rest' h
  obtain ⟨rfl, hrest⟩ := hg u u' rest rest' hg_rest hg_rest' hsecond
  exact ⟨rfl, hrest⟩

theorem Decided.alt (hf : f.Decided) (hg : g.Decided) (hfn : f.nullable = false)
    (hgn : g.nullable = false) (hfirst : ∀ x ∈ f.first, x ∉ g.first) :
    (Form.alt f g).Decided := by
  -- the two alternatives do not begin alike
  have hapart : ∀ (t : f.Tree) (u : g.Tree) (rest rest' : Tokens),
      g.tokens u ++ rest ≠ f.tokens t ++ rest' := by
    intro t u rest rest'
    have hbegins : Heads (· ∉ f.first) (g.tokens u ++ rest) :=
      heads_tokens (fun x hx hm => hfirst x hm hx) fun hnull =>
        absurd (hnull.symm.trans hgn) (by decide)
    exact ne_tokens_append hfn hbegins t rest'
  intro v v' rest rest' hr hr' h
  have hf_stops : ∀ ts, Heads (· ∉ (Form.alt f g).next) ts → Heads (· ∉ f.next) ts :=
    fun ts hts => hts.imp fun x hx hm => hx (List.mem_append_left _ hm)
  have hg_stops : ∀ ts, Heads (· ∉ (Form.alt f g).next) ts → Heads (· ∉ g.next) ts :=
    fun ts hts => hts.imp fun x hx hm => hx (List.mem_append_right _ hm)
  match v, v' with
  | .inl t, .inl t' =>
    obtain ⟨rfl, hrest⟩ := hf t t' rest rest' (hf_stops _ hr) (hf_stops _ hr') h
    exact ⟨rfl, hrest⟩
  | .inr u, .inr u' =>
    obtain ⟨rfl, hrest⟩ := hg u u' rest rest' (hg_stops _ hr) (hg_stops _ hr') h
    exact ⟨rfl, hrest⟩
  | .inl t, .inr u => exact absurd h.symm (hapart t u rest' rest)
  | .inr u, .inl t => exact absurd h (hapart t u rest rest')

/-- What follows something that may be left out or repeated does not begin like it. -/
theorem heads_of_heads_next {rest : Tokens} (h : Heads (· ∉ f.first ++ f.next) rest) :
    Heads (· ∉ f.first) rest ∧ Heads (· ∉ f.next) rest :=
  ⟨h.imp fun _ hx hm => hx (List.mem_append_left _ hm),
    h.imp fun _ hx hm => hx (List.mem_append_right _ hm)⟩

theorem Decided.opt (hf : f.Decided) (hn : f.nullable = false) : (Form.opt f).Decided := by
  intro v v' rest rest' hr hr' h
  obtain ⟨hfirst, hnext⟩ := heads_of_heads_next hr
  obtain ⟨hfirst', hnext'⟩ := heads_of_heads_next hr'
  match v, v' with
  | none, none => exact ⟨rfl, h⟩
  | none, some t => exact absurd h (ne_tokens_append hn hfirst t rest')
  | some t, none => exact absurd h.symm (ne_tokens_append hn hfirst' t rest)
  | some t, some t' =>
    obtain ⟨rfl, hrest⟩ := hf t t' rest rest' hnext hnext' h
    exact ⟨rfl, hrest⟩

theorem Decided.star (hf : f.Decided) (hn : f.nullable = false)
    (hnext : ∀ x ∈ f.next, x ∉ f.first) : (Form.star f).Decided := by
  intro v v' rest rest' hr hr' h
  obtain ⟨hfirst, hstops⟩ := heads_of_heads_next hr
  obtain ⟨hfirst', hstops'⟩ := heads_of_heads_next hr'
  -- after an element comes another one, or what follows all of them
  have hmore : ∀ (ts : (Form.star f).Tree) (us : Tokens), Heads (· ∉ f.next) us →
      Heads (· ∉ f.next) ((Form.star f).tokens ts ++ us) :=
    fun ts us hus => heads_tokens (f := .star f) (fun x hx hm => hnext x hm hx) fun _ => hus
  have helements : ∀ ts ts' : List f.Tree,
      ts.flatMap f.tokens ++ rest = ts'.flatMap f.tokens ++ rest' → ts = ts' ∧ rest = rest' := by
    intro ts
    induction ts with
    | nil =>
      intro ts' h
      cases ts' with
      | nil => exact ⟨rfl, h⟩
      | cons t' ts' =>
        rw [List.flatMap_cons, List.append_assoc] at h
        exact absurd h (ne_tokens_append hn hfirst t' _)
    | cons t ts ih =>
      intro ts' h
      rw [List.flatMap_cons, List.append_assoc] at h
      cases ts' with
      | nil => exact absurd h.symm (ne_tokens_append hn hfirst' t _)
      | cons t' ts' =>
        rw [List.flatMap_cons, List.append_assoc] at h
        obtain ⟨rfl, htail⟩ := hf t t' _ _ (hmore ts rest hstops) (hmore ts' rest' hstops') h
        obtain ⟨rfl, hrest⟩ := ih ts' htail
        exact ⟨rfl, hrest⟩
  exact helements v v' h

/-- After the first element of a list, commas and elements take turns in one way only. -/
theorem Decided.tail (hf : f.Decided) (hn : f.nullable = false) (hcomma : .symbol .comma ∉ f.next)
    {rest rest' : Tokens} (hr : Heads (· ∉ (Form.list f).next) rest)
    (hr' : Heads (· ∉ (Form.list f).next) rest') (more more' : List (Comma × f.Tree))
    (extra extra' : Option Comma)
    (h : tailTokens f.tokens more extra ++ rest = tailTokens f.tokens more' extra' ++ rest') :
    more = more' ∧ extra = extra' ∧ rest = rest' := by
  have hstops : ∀ ts, Heads (· ∉ (Form.list f).next) ts →
      (∀ (comma : Comma) us, ts ≠ comma.1 :: us) ∧ (∀ t us, ts ≠ f.tokens t ++ us) ∧
        Heads (· ∉ f.next) ts := by
    intro ts hts
    have helement := heads_of_heads_next (hts.imp fun x hx hm => hx (List.mem_cons_of_mem _ hm))
    refine ⟨fun comma us hus => ?_, ne_tokens_append hn helement.1, helement.2⟩
    rw [hus] at hts
    exact heads_word.mp hts List.mem_cons_self
  obtain ⟨hno_comma, hno_element, hnext⟩ := hstops rest hr
  obtain ⟨hno_comma', hno_element', hnext'⟩ := hstops rest' hr'
  induction more generalizing more' with
  | nil =>
    match extra, more', extra' with
    | none, [], none => exact ⟨rfl, rfl, h⟩
    | none, [], some comma' => exact absurd h (hno_comma comma' _)
    | none, (comma', t') :: more', _ => exact absurd h (hno_comma comma' _)
    | some comma, [], none => exact absurd h.symm (hno_comma' comma _)
    | some comma, [], some comma' =>
      obtain ⟨hhead, hrest⟩ := List.cons.inj h
      exact ⟨rfl, congrArg some (Subtype.ext hhead), hrest⟩
    | some comma, (comma', t') :: more', extra' =>
      simp only [tailTokens, List.cons_append, List.nil_append, List.append_assoc] at h
      exact absurd (List.cons.inj h).2 (hno_element t' _)
  | cons x more ih =>
    obtain ⟨comma, t⟩ := x
    match more', extra' with
    | [], none => exact absurd h.symm (hno_comma' comma _)
    | [], some comma' =>
      simp only [tailTokens, List.cons_append, List.nil_append, List.append_assoc] at h
      exact absurd (List.cons.inj h).2.symm (hno_element' t _)
    | (comma', t') :: more', extra' =>
      simp only [tailTokens, List.cons_append, List.append_assoc] at h
      obtain ⟨hhead, hafter⟩ := List.cons.inj h
      obtain ⟨rfl, htail⟩ := hf t t' _ _ (heads_tail hcomma hnext more extra)
        (heads_tail hcomma hnext' more' extra') hafter
      obtain ⟨rfl, rfl, hrest⟩ := ih more' htail
      exact ⟨by rw [Subtype.ext hhead], rfl, hrest⟩

theorem Decided.list (hf : f.Decided) (hn : f.nullable = false)
    (hcomma : .symbol .comma ∉ f.next) : (Form.list f).Decided := by
  intro v v' rest rest' hr hr' h
  have hstops : ∀ ts, Heads (· ∉ (Form.list f).next) ts →
      Heads (· ∉ f.first) ts ∧ Heads (· ∉ f.next) ts :=
    fun ts hts => heads_of_heads_next (hts.imp fun x hx hm => hx (List.mem_cons_of_mem _ hm))
  match v, v' with
  | none, none => exact ⟨rfl, h⟩
  | none, some (t', more', extra') =>
    rw [tokens, tokens, List.append_assoc] at h
    exact absurd h (ne_tokens_append hn (hstops rest hr).1 t' _)
  | some (t, more, extra), none =>
    rw [tokens, tokens, List.append_assoc] at h
    exact absurd h.symm (ne_tokens_append hn (hstops rest' hr').1 t _)
  | some (t, more, extra), some (t', more', extra') =>
    rw [tokens, tokens, List.append_assoc, List.append_assoc] at h
    obtain ⟨rfl, htail⟩ := hf t t' _ _ (heads_tail hcomma (hstops rest hr).2 more extra)
      (heads_tail hcomma (hstops rest' hr').2 more' extra') h
    obtain ⟨rfl, rfl, hrest⟩ := hf.tail hn hcomma hr hr' more more' extra extra' htail
    exact ⟨rfl, hrest⟩

/-- Predictive forms are decided. -/
theorem Predictive.decided (h : f.Predictive) : f.Decided := by
  induction f with
  | terminal x =>
    intro t t' rest rest' _ _ htokens
    obtain ⟨hhead, hrest⟩ := List.cons.inj htokens
    exact ⟨Subtype.ext hhead, hrest⟩
  | seq f g ihf ihg =>
    obtain ⟨hf, hg, hnext⟩ := h
    exact (ihf hf).seq (ihg hg) hnext
  | alt f g ihf ihg =>
    obtain ⟨hf, hg, hfn, hgn, hfirst⟩ := h
    exact (ihf hf).alt (ihg hg) hfn hgn hfirst
  | opt f ih =>
    obtain ⟨hf, hn⟩ := h
    exact (ih hf).opt hn
  | star f ih =>
    obtain ⟨hf, hn, hnext⟩ := h
    exact (ih hf).star hn hnext
  | list f ih =>
    obtain ⟨hf, hn, hcomma⟩ := h
    exact (ih hf).list hn hcomma

/-- A token sequence has at most one tree of a predictive form. -/
theorem Predictive.tree_unique (h : f.Predictive) {t u : f.Tree}
    (htokens : f.tokens t = f.tokens u) : t = u := by
  refine (h.decided t u [] [] (heads_nil _) (heads_nil _) ?_).1
  rw [List.append_nil, List.append_nil, htokens]

end Form

end Source

end TensorLoops
