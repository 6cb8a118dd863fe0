import Mathlib.Data.List.TakeWhile
import TensorLoops.Source.Scan

namespace TensorLoops

namespace Source

/-- What the pieces of a text are, without the gaps. -/
def contents (text : List Char) : List PieceKind :=
  ((pieces text).map Piece.kind).filter (· != .gap)

/-- Whether a word may run on after the character. -/
def runsOn (c : Char) : Bool := inWord c || c = '%'

/-- No word runs over from one text into the next. -/
def Apart (s t : List Char) : Prop :=
  ∀ c ∈ s.getLast?, ∀ d ∈ t.head?, runsOn c = true → inWord d = false

theorem contents_nil : contents [] = [] := by
  unfold contents pieces
  rfl

theorem contents_cons (c : Char) (cs : List Char) :
    contents (c :: cs) = (if pieceKind c (cs.takeWhile (continues c)) = .gap then []
      else [pieceKind c (cs.takeWhile (continues c))]) ++
        contents (cs.dropWhile (continues c)) := by
  simp only [contents]
  rw [pieces, List.map_cons, List.filter_cons]
  by_cases hgap : pieceKind c (cs.takeWhile (continues c)) = .gap <;> simp [hgap]

theorem continues_blank {c : Char} (h : isBlank c = true) : continues c = isBlank := by
  funext d
  simp [continues, h]

theorem contents_blank {c : Char} (h : isBlank c = true) (cs : List Char) :
    contents (c :: cs) = contents (cs.dropWhile isBlank) := by
  rw [contents_cons, continues_blank h]
  simp [pieceKind, h]

/-- Blanks in front do not matter. -/
theorem contents_dropWhile (text : List Char) :
    contents (text.dropWhile isBlank) = contents text := by
  cases text with
  | nil => rfl
  | cons c cs =>
    by_cases h : isBlank c = true
    · rw [List.dropWhile_cons_of_pos h, contents_blank h]
    · rw [List.dropWhile_cons_of_neg h]

theorem inWord_of_isDigit {c : Char} (h : c.isDigit = true) : inWord c = true := by
  simp [inWord, Char.isAlphanum, h]

theorem inWord_of_startsWord {c : Char} (h : startsWord c = true) : inWord c = true := by
  rcases Bool.or_eq_true_iff.mp h with ha | hu
  · simp [inWord, Char.isAlphanum, ha]
  · simp [inWord, hu]

/-- A piece that is no gap ends where a word cannot run on. -/
theorem not_continues {c d : Char} (hb : isBlank c = false) (hc : c ≠ '#')
    (h : runsOn c = true → inWord d = false) : continues c d = false := by
  unfold continues
  simp only [hb, Bool.false_eq_true, if_false, hc]
  split
  · rename_i hdigit
    have hd := h (by simp [runsOn, inWord_of_isDigit hdigit])
    cases hdd : d.isDigit with
    | false => rfl
    | true =>
      rw [inWord_of_isDigit hdd] at hd
      cases hd
  · split
    · rename_i hword
      apply h
      rcases Bool.or_eq_true_iff.mp hword with hs | hp
      · simp [runsOn, inWord_of_startsWord hs]
      · simp [runsOn, of_decide_eq_true hp]
    · rfl

/-- All characters of such a piece let a word run on when one of them follows the first. -/
theorem runsOn_of_continues {c d : Char} (hb : isBlank c = false) (hc : c ≠ '#')
    (h : continues c d = true) : runsOn c = true ∧ inWord d = true := by
  cases hr : runsOn c with
  | false =>
    rw [not_continues hb hc (by simp [hr])] at h
    cases h
  | true =>
    refine ⟨rfl, ?_⟩
    cases hd : inWord d with
    | true => rfl
    | false =>
      rw [not_continues hb hc (fun _ => hd)] at h
      cases h

theorem Apart.of_suffix {s s' t : List Char} (h : Apart s t) (hs : s' <:+ s) : Apart s' t := by
  intro c hc
  refine h c ?_
  obtain ⟨u, rfl⟩ := hs
  cases s' with
  | nil => cases hc
  | cons a s' => simpa [List.getLast?_append] using hc

/-- After a piece that is no gap the next text begins a new one. -/
theorem not_continues_apart {c : Char} {cs t : List Char} (hb : isBlank c = false) (hc : c ≠ '#')
    (hall : ∀ d ∈ cs, continues c d = true) (h : Apart (c :: cs) t) :
    ∀ d ∈ t.head?, continues c d = false := by
  intro d hd
  refine not_continues hb hc fun hr => ?_
  have hlast := List.getLast?_eq_some_getLast (List.cons_ne_nil c cs)
  refine h _ hlast d hd ?_
  rcases List.mem_cons.mp (List.getLast_mem (List.cons_ne_nil c cs)) with he | hm
  · rw [he]
    exact hr
  · simp [runsOn, (runsOn_of_continues hb hc (hall _ hm)).2]

theorem contents_append {s t : List Char} (hs : '#' ∉ s) (h : Apart s t) :
    contents (s ++ t) = contents s ++ contents t := by
  induction s using pieces.induct with
  | case1 => simp [contents_nil]
  | case2 c cs ih =>
    rw [List.cons_append, contents_cons, contents_cons, List.takeWhile_append,
      List.dropWhile_append]
    have hsuffix : cs.dropWhile (continues c) <:+ c :: cs :=
      (List.dropWhile_suffix _).trans (List.suffix_cons c cs)
    cases hrest : cs.dropWhile (continues c) with
    | cons d ds =>
      rw [hrest] at ih hsuffix
      have hlen : (cs.takeWhile (continues c)).length ≠ cs.length := by
        have hsplit := congrArg List.length (List.takeWhile_append_dropWhile (p := continues c)
          (l := cs))
        rw [List.length_append, hrest, List.length_cons] at hsplit
        omega
      rw [if_neg hlen, List.append_assoc]
      have hnext := ih (fun hm => hs (hsuffix.subset hm)) (h.of_suffix hsuffix)
      simpa using hnext
    | nil =>
      have hall := List.dropWhile_eq_nil_iff.mp hrest
      rw [List.takeWhile_eq_self_iff.mpr hall]
      simp only [List.isEmpty_nil, if_true, contents_nil, List.append_nil]
      by_cases hb : isBlank c = true
      · rw [continues_blank hb, contents_dropWhile]
        simp [pieceKind, hb]
      · have hb : isBlank c = false := by simpa using hb
        have hc : c ≠ '#' := fun he => hs (he ▸ List.mem_cons_self)
        have hstop := not_continues_apart hb hc hall h
        cases t with
        | nil => simp [contents_nil]
        | cons d ds =>
          have hd : ¬ continues c d = true := by simp [hstop d rfl]
          rw [List.takeWhile_cons_of_neg hd, List.dropWhile_cons_of_neg hd, List.append_nil]

/-- The text is cut into the tokens, and has no comment. -/
structure Spells (text : String) (tokens : List Token) : Prop where
  contents : contents text.toList = tokens.map .token
  noComment : '#' ∉ text.toList

instance (text : String) (tokens : List Token) : Decidable (Spells text tokens) :=
  decidable_of_iff (contents text.toList = tokens.map .token ∧ '#' ∉ text.toList)
    ⟨fun h => ⟨h.1, h.2⟩, fun h => ⟨h.1, h.2⟩⟩

/-- No word runs over into the text. -/
def Opens (text : String) : Prop := ∀ d ∈ text.toList.head?, inWord d = false

instance (text : String) : Decidable (Opens text) :=
  decidable_of_iff (text.toList.head?.all (! inWord ·) = true)
    (by simp [Opens, Option.all_eq_true])

/-- No word runs on after the text. -/
def Closes (text : String) : Prop := ∀ c ∈ text.toList.getLast?, runsOn c = false

instance (text : String) : Decidable (Closes text) :=
  decidable_of_iff (text.toList.getLast?.all (! runsOn ·) = true)
    (by simp [Closes, Option.all_eq_true])

theorem Opens.append {s : String} (h : Opens s) (hs : s ≠ "") (t : String) : Opens (s ++ t) := by
  intro d hd
  apply h
  rw [String.toList_append, List.head?_append] at hd
  cases hhead : s.toList.head? with
  | none => exact absurd (String.toList_eq_nil_iff.mp (List.head?_eq_none_iff.mp hhead)) hs
  | some c => simpa [hhead] using hd

theorem Closes.append {t : String} (h : Closes t) (ht : t ≠ "") (s : String) : Closes (s ++ t) := by
  intro c hc
  apply h
  rw [String.toList_append, List.getLast?_append] at hc
  cases hlast : t.toList.getLast? with
  | none => exact absurd (String.toList_eq_nil_iff.mp (List.getLast?_eq_none_iff.mp hlast)) ht
  | some d => simpa [hlast] using hc

namespace Spells

variable {s t u : String} {us vs ws : List Token}

theorem append_of_apart (hs : Spells s us) (ht : Spells t vs) (h : Apart s.toList t.toList) :
    Spells (s ++ t) (us ++ vs) := by
  constructor
  · rw [String.toList_append, contents_append hs.noComment h, hs.contents, ht.contents,
      List.map_append]
  · rw [String.toList_append, List.mem_append]
    exact not_or.mpr ⟨hs.noComment, ht.noComment⟩

theorem append_opens (hs : Spells s us) (ht : Spells t vs) (h : Opens t) :
    Spells (s ++ t) (us ++ vs) :=
  hs.append_of_apart ht fun _ _ d hd _ => h d hd

theorem append_closes (hs : Spells s us) (ht : Spells t vs) (h : Closes s) :
    Spells (s ++ t) (us ++ vs) :=
  hs.append_of_apart ht fun c hc _ _ hr => absurd hr (by simp [h c hc])

end Spells

/-- A text with words that end before whatever follows. -/
structure SpellsLine (line : String) (tokens : List Token) : Prop extends Spells line tokens where
  closes : Closes line

/-- A text that ends the word in front of it. -/
structure SpellsTail (tail : String) (tokens : List Token) : Prop extends Spells tail tokens where
  opens : Opens tail

/-- A text that keeps the words on its two sides apart. -/
structure Separates (text : String) (tokens : List Token) : Prop
    extends SpellsLine text tokens, SpellsTail text tokens where
  nonempty : text ≠ ""

instance (text : String) (tokens : List Token) : Decidable (Separates text tokens) :=
  decidable_of_iff (Spells text tokens ∧ Closes text ∧ Opens text ∧ text ≠ "")
    ⟨fun ⟨hs, hc, ho, hn⟩ => ⟨⟨hs, hc⟩, ho, hn⟩,
      fun h => ⟨h.toSpells, h.closes, h.opens, h.nonempty⟩⟩

theorem spells_empty : Spells "" [] := ⟨contents_nil, by simp⟩

section Appending

variable {s t u : String} {us vs ws : List Token}

theorem SpellsLine.append (hs : SpellsLine s us) (ht : SpellsLine t vs) :
    SpellsLine (s ++ t) (us ++ vs) where
  toSpells := hs.toSpells.append_closes ht.toSpells hs.closes
  closes := by
    by_cases hnil : t = ""
    · rw [hnil, String.append_empty]
      exact hs.closes
    · exact ht.closes.append hnil s

theorem SpellsTail.append (hs : SpellsTail s us) (ht : SpellsTail t vs) :
    SpellsTail (s ++ t) (us ++ vs) where
  toSpells := hs.toSpells.append_opens ht.toSpells ht.opens
  opens := by
    by_cases hnil : s = ""
    · rw [hnil, String.empty_append]
      exact ht.opens
    · exact hs.opens.append hnil t

theorem Spells.append_separator (hs : Spells s us) (ht : Separates t vs) :
    SpellsLine (s ++ t) (us ++ vs) where
  toSpells := hs.append_opens ht.toSpells ht.opens
  closes := ht.closes.append ht.nonempty s

theorem Separates.append (hs : Separates s us) (ht : Spells t vs) :
    SpellsTail (s ++ t) (us ++ vs) where
  toSpells := hs.toSpells.append_closes ht hs.closes
  opens := hs.opens.append hs.nonempty t

theorem Spells.between (hs : Spells s us) (ht : Separates t vs) (hu : Spells u ws) :
    Spells (s ++ t ++ u) (us ++ vs ++ ws) := by
  have hline := hs.append_separator ht
  exact hline.toSpells.append_closes hu hline.closes

end Appending

theorem SpellsLine.empty : SpellsLine "" [] := ⟨spells_empty, by simp [Closes]⟩

theorem SpellsTail.empty : SpellsTail "" [] := ⟨spells_empty, by simp [Opens]⟩

theorem SpellsLine.join {α : Type} {f : α → String} {g : α → List Token} {xs : List α}
    (h : ∀ x ∈ xs, SpellsLine (f x) (g x)) :
    SpellsLine (String.join (xs.map f)) (xs.flatMap g) := by
  induction xs with
  | nil => exact .empty
  | cons x rest ih =>
    rw [List.map_cons, String.join_cons, List.flatMap_cons]
    exact (h x List.mem_cons_self).append (ih fun y hy => h y (List.mem_cons_of_mem _ hy))

/-- A text and the end of its line. -/
theorem Spells.line {s : String} {us : List Token} (h : Spells s us) :
    SpellsLine (s ++ "\n") us := by
  have hend : Separates "\n" [] := by decide +kernel
  simpa using h.append_separator hend

/-- One piece that is a token. -/
theorem contents_piece {c : Char} {cs : List Char} {token : Token}
    (hall : ∀ d ∈ cs, continues c d = true) (hkind : pieceKind c cs = .token token) :
    contents (c :: cs) = [.token token] := by
  rw [contents_cons, List.takeWhile_eq_self_iff.mpr hall, List.dropWhile_eq_nil_iff.mpr hall, hkind]
  simp [contents_nil]

/-- Words that can stand behind the sign of a value. -/
def IsName (name : String) : Prop := name.toList ≠ [] ∧ ∀ c ∈ name.toList, inWord c = true

theorem inWord_ne_hash {c : Char} (h : inWord c = true) : c ≠ '#' := by
  intro h
  subst h
  exact absurd h (by decide)

theorem not_isBlank_of_inWord {c : Char} (h : inWord c = true) : isBlank c = false := by
  cases hb : isBlank c with
  | false => rfl
  | true =>
    simp only [isBlank, Bool.or_eq_true, decide_eq_true_eq] at hb
    rcases hb with ((rfl | rfl) | rfl) | rfl <;> exact absurd h (by decide)

theorem spells_value {name : String} (hn : IsName name) : Spells ("%" ++ name) [.value name] := by
  obtain ⟨hne, hall⟩ := hn
  have hlist : ("%" ++ name).toList = '%' :: name.toList := by simp
  constructor
  · rw [hlist]
    refine contents_piece (fun d hd => ?_) ?_
    · simp [continues, isBlank, startsWord, hall d hd]
    · simp [pieceKind, isBlank, startsWord, hne]
  · rw [hlist]
    intro hm
    rcases List.mem_cons.mp hm with he | hm
    · exact absurd he (by decide)
    · exact inWord_ne_hash (hall _ hm) rfl

/-- A number is written in digits. -/
theorem isDigit_of_mem_repr {n : Nat} {c : Char} (h : c ∈ n.repr.toList) : c.isDigit = true := by
  rw [Nat.toList_repr] at h
  exact Nat.isDigit_of_mem_toDigits (by decide) (by decide) h

theorem spells_number {n : Nat} (hn : n < UInt64.size) :
    Spells n.repr [.number (.ofNat n)] := by
  have hdigits : ∀ c ∈ n.repr.toList, c.isDigit = true := fun _ => isDigit_of_mem_repr
  obtain ⟨c, cs, hcons⟩ := List.exists_cons_of_ne_nil (l := n.repr.toList) (by simp)
  have hvalue : Nat.ofDigitChars 10 (c :: cs) 0 = n := by
    rw [← hcons, Nat.toList_repr, Nat.ofDigitChars_ten_toDigits]
  constructor
  · rw [hcons] at hdigits ⊢
    have hc := hdigits c List.mem_cons_self
    have hblank := not_isBlank_of_inWord (inWord_of_isDigit hc)
    have hhash := inWord_ne_hash (inWord_of_isDigit hc)
    refine contents_piece (fun d hd => ?_) ?_
    · simp [continues, hblank, hhash, hc, hdigits d (List.mem_cons_of_mem _ hd)]
    · simp [pieceKind, hblank, hhash, hc, numberKind, hvalue, hn]
  · intro hm
    exact inWord_ne_hash (inWord_of_isDigit (hdigits _ hm)) rfl

theorem place_value (start : Nat) (ps : List Piece) :
    (place start ps).map Located.value = ps := by
  induction ps generalizing start with
  | nil => rfl
  | cons p ps ih => simp [place, ih]

theorem tokens_of_kinds {placed : List (Located Piece)} {tokens : List Token}
    (h : (placed.map (·.value.kind)).filter (· != .gap) = tokens.map .token) :
    (placed.filterMap tokenOf?).map Located.value = tokens ∧ placed.filterMap badTextOf? = [] := by
  induction placed generalizing tokens with
  | nil =>
    cases tokens with
    | nil => exact ⟨rfl, rfl⟩
    | cons t ts => cases h
  | cons p placed ih =>
    rw [List.map_cons] at h
    cases hk : p.value.kind with
    | gap =>
      rw [hk] at h
      simpa [tokenOf?, badTextOf?, hk] using ih h
    | bad =>
      rw [hk] at h
      cases tokens <;> cases h
    | token t =>
      rw [hk] at h
      cases tokens with
      | nil => cases h
      | cons u us =>
        obtain ⟨ht, hrest⟩ := List.cons.inj h
        cases ht
        simpa [tokenOf?, badTextOf?, hk] using ih hrest

/-- The scan of a text that is cut into tokens: these, and no bad text. -/
theorem Spells.scan {text : String} {tokens : List Token} (h : Spells text tokens) :
    (scan text).tokens.map Located.value = tokens ∧ (TensorLoops.scan text).badText = [] := by
  apply tokens_of_kinds
  have hkinds : (placedPieces text.toList).map (·.value.kind) =
      (pieces text.toList).map Piece.kind := by
    have hvalues := congrArg (List.map Piece.kind) (place_value 0 (pieces text.toList))
    rwa [List.map_map] at hvalues
  rw [hkinds]
  exact h.contents

theorem pieceKind_eq_value {c : Char} {rest : List Char} {name : String}
    (h : pieceKind c rest = .token (.value name)) :
    c = '%' ∧ rest ≠ [] ∧ name = .ofList rest := by
  unfold pieceKind at h
  split at h
  · cases h
  · split at h
    · unfold numberKind at h
      dsimp only at h
      split at h <;> cases h
    · split at h
      · unfold wordToken at h
        split at h <;> cases h
      · split at h
        · rename_i hc
          split at h
          · cases h
          · rename_i hne
            cases h
            exact ⟨hc, by simpa using hne, rfl⟩
        · split at h <;> cases h

/-- The values of a text are named by words. -/
theorem isName_of_mem_pieces {text : List Char} {p : Piece} {name : String} (h : p ∈ pieces text)
    (hk : p.kind = .token (.value name)) : IsName name := by
  induction text using pieces.induct with
  | case1 =>
    rw [pieces] at h
    cases h
  | case2 c cs ih =>
    rw [pieces] at h
    rcases List.mem_cons.mp h with rfl | h
    · obtain ⟨rfl, hne, rfl⟩ := pieceKind_eq_value hk
      refine ⟨by simpa using hne, fun d hd => ?_⟩
      rw [String.toList_ofList] at hd
      have hcont := List.mem_takeWhile_imp hd
      exact (runsOn_of_continues (by decide) (by decide) hcont).2
    · exact ih h

theorem isName_of_mem_scan {source name : String} {t : Located Token}
    (h : t ∈ (scan source).tokens) (hv : t.value = .value name) : IsName name := by
  obtain ⟨p, hp, ht⟩ := List.mem_filterMap.mp h
  have hpiece : p.value ∈ pieces source.toList := by
    rw [← place_value 0 (pieces source.toList)]
    exact List.mem_map_of_mem hp
  refine isName_of_mem_pieces hpiece ?_
  unfold tokenOf? at ht
  split at ht
  · rename_i token hk
    cases ht
    rw [hk, ← hv]
  · cases ht
  · cases ht

end Source

end TensorLoops
