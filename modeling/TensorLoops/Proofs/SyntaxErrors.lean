import TensorLoops.Proofs.Expectations
import TensorLoops.Proofs.ParsedKernels
import TensorLoops.Proofs.Trials

namespace TensorLoops

namespace Source

namespace Grammar

variable {α β : Type} {g : Grammar α} {h : Grammar β}

theorem named_keyword {k : Keyword} (h : Expected.of (.keyword k) = .exactly (.keyword k)) :
    (keyword k).Named := named_exactly h

theorem named_symbol {s : Symbol} (h : Expected.of (.symbol s) = .exactly (.symbol s)) :
    (symbol s).Named := named_exactly h

theorem named_identifier : identifier.Named :=
  ⟨⟨.ident "", rfl⟩, fun t ht => by cases t <;> first | rfl | cases ht⟩

theorem named_value : value.Named :=
  ⟨⟨.value "", rfl⟩, fun t ht => by cases t <;> first | rfl | cases ht⟩

theorem named_number : number.Named :=
  ⟨⟨.number 0, rfl⟩, fun t ht => by cases t <;> first | rfl | cases ht⟩

theorem named_extent : extent.Named := by
  refine ⟨⟨.number 0, rfl⟩, fun t ht => ?_⟩
  rcases t with k | s | n | name | name
  case symbol => cases s <;> first | rfl | cases ht
  all_goals first | rfl | cases ht

theorem named_portKind : portKind.Named := by
  refine ⟨⟨.keyword .entry, rfl⟩, fun t ht => ?_⟩
  rcases t with k | s | n | name | name
  case keyword => cases k <;> first | rfl | cases ht
  all_goals cases ht

theorem named_direction : direction.Named := by
  refine ⟨⟨.keyword .input, rfl⟩, fun t ht => ?_⟩
  rcases t with k | s | n | name | name
  case keyword => cases k <;> first | rfl | cases ht
  all_goals cases ht

theorem Named.bracketed (hg : g.Named) : (bracketed g).Named :=
  ⟨named_symbol rfl, hg, named_symbol rfl⟩

theorem named_tensorType : tensorType.Named :=
  ⟨named_identifier, Named.bracketed (g := .located extent) named_extent,
    named_keyword rfl, named_number.bracketed⟩

theorem named_typeClause : typeClause.Named := ⟨named_symbol rfl, named_tensorType⟩

theorem named_expression : expression.Named :=
  ⟨⟨named_value, named_symbol rfl⟩, named_identifier,
    ⟨named_symbol rfl, ⟨named_value, named_typeClause⟩, named_symbol rfl⟩, named_typeClause,
    named_keyword rfl, Named.bracketed (g := .located number) named_number⟩

theorem named_port : port.Named :=
  ⟨named_portKind, ⟨named_value, named_symbol rfl⟩, named_direction, named_number.bracketed,
    ⟨named_keyword rfl, named_number⟩, named_keyword rfl⟩

theorem named_loop : loop.Named :=
  ⟨⟨named_keyword rfl, named_number⟩, ⟨named_keyword rfl, named_symbol rfl, named_extent⟩,
    named_symbol rfl, named_port, named_symbol rfl⟩

theorem named_items : items.Named := ⟨named_loop, named_expression⟩

end Grammar

/-- The token sequences that are derived. -/
def Form.language (f : Form) : Language (Located Token) := {ts | ∃ t, f.tokens t = ts}

theorem Form.Describes.language_eq {α : Type} {f : Form} {v : f.Tree → α} {g : Grammar α}
    (h : f.Describes v g) : g.language = f.language := by
  ext ts
  constructor
  · intro hts
    obtain ⟨a, ha⟩ := hts
    obtain ⟨t, ht, -⟩ := (h ts a).mp ha
    exact ⟨t, ht⟩
  · intro hts
    obtain ⟨t, ht⟩ := hts
    exact ⟨v t, (h ts _).mpr ⟨t, ht, rfl⟩⟩

variable {L : Language (Located Token)} {ts taken rest : Tokens} {before tried : List Expected}
  {done : Prop}

/-- The tokens before `i` can begin a sentence, and those up to the one at `i` cannot; or `i` is the
end, and all of them can begin one. -/
structure FirstFault (L : Language (Located Token)) (ts : Tokens) (i : Nat) : Prop where
  inside : i ≤ ts.length
  viable : Viable L (ts.take i)
  stops : i < ts.length → ¬ Viable L (ts.take (i + 1))

/-- There is at most one such place. -/
theorem FirstFault.unique {i j : Nat} (hi : FirstFault L ts i) (hj : FirstFault L ts j) :
    i = j := by
  have hle : ∀ {i j : Nat}, FirstFault L ts i → FirstFault L ts j → j ≤ i := by
    intro i j hi hj
    by_contra hlt
    refine hi.stops (by have := hj.inside; omega) ?_
    have hprefix := hj.viable
    rw [← List.take_append_drop (i + 1) (ts.take j), List.take_take, min_eq_left (by omega)]
      at hprefix
    exact viable_left hprefix
  exact Nat.le_antisymm (hle hj hi) (hle hi hj)

/-- What can come after `ts`: a token of its own, an identifier, a token of another kind, or the
end. -/
def Possible (L : Language (Located Token)) (ts : Tokens) : Expected → Prop
  | .exactly t => Expected.of t = .exactly t ∧ ∃ span, Next L ts ⟨t, span⟩
  | .identifier => ∃ name span, Next L ts ⟨.ident name, span⟩
  | .something => ∃ t, Expected.of t.value = .something ∧ Next L ts t
  | .endOfInput => ts ∈ L

theorem Expected.eq_of_exactly {t u : Token} (h : Expected.of t = .exactly u) : t = u := by
  rcases t with k | s | n | name | name
  case keyword => cases k <;> cases h <;> rfl
  case symbol => cases s <;> cases h <;> rfl
  all_goals cases h

theorem Expected.of_eq_identifier {t : Token} :
    Expected.of t = .identifier ↔ ∃ name, t = .ident name := by
  rcases t with k | s | n | name | name
  case keyword => cases k <;> simp [Expected.of]
  case symbol => cases s <;> simp [Expected.of]
  all_goals simp [Expected.of]

theorem Expected.of_ne_endOfInput (t : Token) : Expected.of t ≠ .endOfInput := by
  rcases t with k | s | n | name | name
  case keyword => cases k <;> simp [Expected.of]
  case symbol => cases s <;> simp [Expected.of]
  all_goals simp [Expected.of]

theorem possible_iff {e : Expected} :
    Possible L ts e ↔ Expects L ts e ∨ e = .endOfInput ∧ ts ∈ L := by
  cases e with
  | exactly u =>
    simp only [Possible, Expects, reduceCtorEq, false_and, or_false]
    constructor
    · intro h
      obtain ⟨hu, span, hnext⟩ := h
      exact ⟨⟨u, span⟩, hnext, hu⟩
    · intro h
      obtain ⟨⟨t, span⟩, hnext, hu⟩ := h
      obtain rfl := Expected.eq_of_exactly hu
      exact ⟨hu, span, hnext⟩
  | identifier =>
    simp only [Possible, Expects, Expected.of_eq_identifier, reduceCtorEq, false_and, or_false]
    constructor
    · intro h
      obtain ⟨name, span, hnext⟩ := h
      exact ⟨⟨.ident name, span⟩, hnext, name, rfl⟩
    · intro h
      obtain ⟨⟨t, span⟩, hnext, name, rfl⟩ := h
      exact ⟨name, span, hnext⟩
  | something =>
    simp only [Possible, Expects, reduceCtorEq, false_and, or_false]
    exact exists_congr fun t => and_comm
  | endOfInput =>
    simp [Possible, Expects, Expected.of_ne_endOfInput]

/-- The error at the token with the number `i`, or at the end of a text of `length` bytes. -/
def faultAt (length : Nat) (ts : Tokens) (i : Nat) (expected : List Expected) :
    Located ParseError where
  value := .unexpected (ts[i]?.map (·.value)) expected
  span := (ts[i]?.map (·.span)).getD (.point length)

theorem unexpectedAt_drop (length : Nat) (ts : Tokens) (i : Nat) (expected : List Expected) :
    unexpectedAt length (ts.drop i) expected = faultAt length ts i expected := by
  rw [faultAt, ← List.head?_drop]
  cases ts.drop i <;> rfl

/-- Where reading stops is the first place at which something is wrong. -/
theorem Reached.firstFault (h : Reached L [] ts taken rest tried done) :
    FirstFault L ts taken.length := by
  obtain rfl := h.split
  refine ⟨by simp, by simpa using h.viable, fun hlt hviable => ?_⟩
  cases rest with
  | nil => simp at hlt
  | cons t rest =>
    refine h.stops t rfl (viable_concat.mp ?_)
    rwa [List.take_append, List.take_of_length_le (Nat.le_succ _), Nat.add_sub_cancel_left]
      at hviable

/-- With the end of the input where a sentence is complete, what was tried is what can come. -/
theorem Reached.possible (h : Reached L [] ts taken rest tried done) {expected : List Expected}
    (hexpected : ∀ e, e ∈ expected ↔ e ∈ tried ∨ e = .endOfInput ∧ done) (e : Expected) :
    e ∈ expected ↔ Possible L (ts.take taken.length) e := by
  obtain rfl := h.split
  rw [hexpected, h.tried, h.complete, possible_iff, List.take_left]
  simp

/-- Where reading is stuck something could have come. -/
theorem Reached.tried_ne_nil (h : Reached L before ts taken rest tried False) : tried ≠ [] := by
  obtain ⟨more, hmore⟩ := h.viable
  cases more with
  | nil => exact absurd (List.append_nil taken ▸ hmore) h.complete.mpr
  | cons t more => exact List.ne_nil_of_mem ((h.tried _).mpr (.inr ⟨t, ⟨more, hmore⟩, rfl⟩))

/-- Tokens that are not derived are not read, and the error stands at the first place at which
something is wrong. It is also the furthest place at which anything was tried. -/
theorem readKernel_fault {ts : Tokens} (h : ts ∉ Form.kernel.language) :
    ∃ i expected, FirstFault Form.kernel.language ts i ∧
      (∀ e, e ∈ expected ↔ Possible Form.kernel.language (ts.take i) e) ∧
      Furthest (Grammar.items.inputTrials ts) (ts.drop i) expected ∧
      ∀ length, readKernel length ts = .error (faultAt length ts i expected) := by
  have hexact := Grammar.exact_reader Grammar.predictive_items Grammar.named_items
  rw [Form.describes_kernel.language_eq] at hexact
  unfold readKernel
  cases hread : Grammar.items.reader [] ts with
  | read items taken rest tried =>
    have hreached := hexact.read hread
    have hdrop : ts.drop taken.length = rest := by rw [← hreached.split, List.drop_left]
    have hne : rest ≠ [] := by
      intro hnil
      refine absurd (hreached.complete.mp trivial) ?_
      rwa [← hreached.split, hnil, List.append_nil] at h
    refine ⟨taken.length, tried ++ [.endOfInput], hreached.firstFault, hreached.possible (by simp),
      hdrop ▸ Grammar.furthest_of_read Grammar.predictive_items hread hne, fun length => ?_⟩
    rw [← unexpectedAt_drop, hdrop]
    cases rest with
    | nil => exact absurd rfl hne
    | cons t rest => rfl
  | stuck taken rest tried =>
    have hreached := hexact.stuck hread
    have hdrop : ts.drop taken.length = rest := by rw [← hreached.split, List.drop_left]
    refine ⟨taken.length, tried, hreached.firstFault, hreached.possible (by simp),
      hdrop ▸ Grammar.furthest_of_stuck Grammar.predictive_items hread hreached.tried_ne_nil,
      fun length => ?_⟩
    rw [← unexpectedAt_drop, hdrop]

end Source

open Source

/-- Tokens outside the grammar of kernels give one error besides those of bad text. It stands at the
first token up to which no kernel can begin, or at the end of the text if the tokens could go on,
and it lists a token, or the end, exactly if it can come there. Of all failed attempts of a parser
with ordered choice these are the furthest. -/
theorem parse_fault {ts : Tokens} (h : ts ∉ Form.kernel.language) :
    ∃ i expected, FirstFault Form.kernel.language ts i ∧
      (∀ e, e ∈ expected ↔ Possible Form.kernel.language (ts.take i) e) ∧
      Furthest (Grammar.items.inputTrials ts) (ts.drop i) expected ∧
      (∀ length, readKernel length ts = .error (faultAt length ts i expected)) ∧
      ∀ source, (scan source).tokens = ts →
        parse source = ⟨none, (scan source).badText.map (·.map ParseError.badText) ++
          [faultAt source.utf8ByteSize ts i expected]⟩ := by
  obtain ⟨i, expected, hfault, hexpected, hfurthest, hread⟩ := readKernel_fault h
  refine ⟨i, expected, hfault, hexpected, hfurthest, hread, fun source hsource => ?_⟩
  unfold parse
  simp only [hsource, hread]

/-- An operand list that is closed by a brace. -/
def unclosed : String := "%a = Exp(%b \x7d"

/-- The operand could have had a type, and there could have been another one. -/
theorem parse_fault_unclosed :
    (scan unclosed).tokens ∉ Form.kernel.language ∧
      ∃ i, FirstFault Form.kernel.language (scan unclosed).tokens i ∧
        ∀ e, e ∈ [.exactly (.symbol .colon), .exactly (.symbol .comma),
            .exactly (.symbol .closeParen)] ↔
          Possible Form.kernel.language ((scan unclosed).tokens.take i) e := by
  have hvalue : (parse unclosed).errors.map (·.value) =
      [.unexpected (some (.symbol .closeBrace)) [.exactly (.symbol .colon),
        .exactly (.symbol .comma), .exactly (.symbol .closeParen)]] := by
    decide +kernel
  have hscan : (scan unclosed).badText = [] := by decide +kernel
  have hout : (scan unclosed).tokens ∉ Form.kernel.language := by
    intro h
    obtain ⟨t, ht⟩ := h
    have hread : readKernel 13 (scan unclosed).tokens = .ok _ :=
      readKernel_eq_ok_iff_tree.mpr ⟨t, ht, rfl⟩
    have hstuck : (readKernel 13 (scan unclosed).tokens).toOption = none := by decide +kernel
    rw [hread] at hstuck
    cases hstuck
  obtain ⟨i, expected, hfault, hexpected, -, -, hparse⟩ := parse_fault hout
  refine ⟨hout, i, hfault, ?_⟩
  simp only [hparse unclosed rfl, hscan, List.map_nil, List.nil_append, List.map_cons, faultAt,
    List.cons.injEq, ParseError.unexpected.injEq, and_true] at hvalue
  rw [← hvalue.2]
  exact hexpected

end TensorLoops
