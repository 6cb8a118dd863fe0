import Mathlib.Data.Nat.Digits.Defs
import TensorLoops.Source.Scan

namespace TensorLoops

namespace Source

/-- One blank, or a comment that runs up to the end of its line or of the text. -/
inductive Skipped (rest : List Char) : List Char → Prop where
  | blank {c : Char} : isBlank c = true → Skipped rest [c]
  | comment {body : List Char} : '\n' ∉ body → (∀ d ∈ rest.head?, d = '\n') →
      Skipped rest ('#' :: body)

/-- The number that is written with these digits, leading zeros or not. -/
def decimalValue (digits : List Char) : Nat :=
  Nat.ofDigits 10 (digits.reverse.map fun c => c.toNat - '0'.toNat)

structure IsDigits (text : List Char) : Prop where
  nonempty : text ≠ []
  digits : ∀ c ∈ text, c.isDigit = true

/-- A text denotes a token. Only the word of a keyword itself denotes that keyword. -/
inductive Denotes : List Char → Token → Prop where
  | keyword (k : Keyword) : Denotes k.text.toList (.keyword k)
  | symbol (s : Symbol) : Denotes [s.char] (.symbol s)
  | number {text : List Char} {n : UInt64} : IsDigits text → n.toNat = decimalValue text →
      Denotes text (.number n)
  | value {name : List Char} : name ≠ [] → (∀ c ∈ name, inWord c = true) →
      Denotes ('%' :: name) (.value (.ofList name))
  | ident {c : Char} {cs : List Char} : startsWord c = true → (∀ d ∈ cs, inWord d = true) →
      (∀ k : Keyword, k.text ≠ .ofList (c :: cs)) →
      Denotes (c :: cs) (.ident (.ofList (c :: cs)))

/-- Whether the token would be longer with this character behind it. -/
def extendedBy : Token → Char → Bool
  | .keyword _, c | .ident _, c | .value _, c => inWord c
  | .number _, c => c.isDigit
  | .symbol _, _ => false

/-- Neither a token nor a gap stands at the front of the text. -/
structure Unreadable (text : List Char) : Prop where
  no_token : ∀ start rest t, text = start ++ rest → ¬ Denotes start t
  no_gap : ∀ start rest, text = start ++ rest → ¬ Skipped rest start

inductive Lexeme where
  | token (t : Token)
  | bad (text : String)
  deriving DecidableEq, Repr

/-- A text that stands between `before` and `rest` is a lexeme. -/
inductive Reads (before rest : List Char) : List Char → Lexeme → Prop where
  | token {text : List Char} {t : Token} : Denotes text t →
      (∀ d ∈ rest.head?, extendedBy t d = false) → Reads before rest text (.token t)
  | stray {c : Char} : Unreadable (c :: rest) → Reads before rest [c] (.bad (.ofList [c]))
  /-- All the digits that stand together, for a number that does not fit in 64 bits. -/
  | tooLarge {text : List Char} : IsDigits text → 2 ^ 64 ≤ decimalValue text →
      (∀ c ∈ before.getLast?, c.isDigit = false) → (∀ d ∈ rest.head?, d.isDigit = false) →
      Reads before rest text (.bad (.ofList text))

/-- The text behind `before` is cut into gaps and these lexemes, each at its place. -/
inductive Cut : List Char → List Char → List (Located Lexeme) → Prop where
  | done {before : List Char} : Cut before [] []
  | skip {before text rest : List Char} {found : List (Located Lexeme)} :
      Skipped rest text → Cut (before ++ text) rest found → Cut before (text ++ rest) found
  | read {before text rest : List Char} {l : Lexeme} {found : List (Located Lexeme)} :
      Reads before rest text l → Cut (before ++ text) rest found →
      Cut before (text ++ rest)
        (⟨l, ⟨byteLength before, byteLength (before ++ text)⟩⟩ :: found)

/-- An offset that does not fall inside a character. -/
def IsCharBoundary (source : String) (offset : Nat) : Prop :=
  (⟨offset⟩ : String.Pos.Raw).IsValid source

theorem utf8ByteSize_eq_byteLength (cs : List Char) :
    (String.ofList cs).utf8ByteSize = byteLength cs := by
  induction cs with
  | nil => rfl
  | cons c cs ih =>
    rw [String.ofList_cons, String.utf8ByteSize_append, String.utf8ByteSize_singleton, ih,
      byteLength]

theorem byteLength_toList (source : String) : byteLength source.toList = source.utf8ByteSize := by
  rw [← utf8ByteSize_eq_byteLength, String.ofList_toList]

theorem isCharBoundary_iff {source : String} {offset : Nat} :
    IsCharBoundary source offset ↔
      ∃ before after, source.toList = before ++ after ∧ offset = byteLength before := by
  unfold IsCharBoundary
  rw [String.Pos.Raw.isValid_iff_exists_append]
  constructor
  · rintro ⟨s, t, rfl, hoffset⟩
    refine ⟨s.toList, t.toList, String.toList_append, ?_⟩
    have hsize := congrArg String.Pos.Raw.byteIdx hoffset
    rw [byteLength_toList]
    exact hsize
  · rintro ⟨before, after, hsource, rfl⟩
    refine ⟨.ofList before, .ofList after, ?_, ?_⟩
    · rw [← String.ofList_append, ← hsource, String.ofList_toList]
    · ext
      exact (utf8ByteSize_eq_byteLength before).symm

theorem IsCharBoundary.le {source : String} {offset : Nat} (h : IsCharBoundary source offset) :
    offset ≤ source.utf8ByteSize :=
  String.Pos.Raw.IsValid.le_utf8ByteSize h

theorem isCharBoundary_zero (source : String) : IsCharBoundary source 0 :=
  isCharBoundary_iff.mpr ⟨[], source.toList, rfl, rfl⟩

theorem isCharBoundary_utf8ByteSize (source : String) :
    IsCharBoundary source source.utf8ByteSize :=
  isCharBoundary_iff.mpr
    ⟨source.toList, [], (List.append_nil _).symm, (byteLength_toList source).symm⟩

theorem byteLength_pos {text : List Char} (h : text ≠ []) : 0 < byteLength text := by
  cases text with
  | nil => exact absurd rfl h
  | cons c cs => exact Nat.lt_of_lt_of_le c.utf8Size_pos (Nat.le_add_right ..)

theorem keyword_text_ne_nil (k : Keyword) : k.text.toList ≠ [] := by cases k <;> decide

theorem Denotes.nonempty {text : List Char} {t : Token} (h : Denotes text t) : text ≠ [] := by
  cases h with
  | keyword k => exact keyword_text_ne_nil k
  | symbol s => exact List.cons_ne_nil _ _
  | number h _ => exact h.nonempty
  | value _ _ => exact List.cons_ne_nil _ _
  | ident _ _ _ => exact List.cons_ne_nil _ _

theorem Reads.nonempty {before rest text : List Char} {l : Lexeme}
    (h : Reads before rest text l) : text ≠ [] := by
  cases h with
  | token h _ => exact h.nonempty
  | stray _ => exact List.cons_ne_nil _ _
  | tooLarge h _ _ _ => exact h.nonempty

namespace Cut

variable {before text : List Char} {found : List (Located Lexeme)}

/-- A lexeme stands where its text does, and that is behind what came before. -/
theorem exists_reads (h : Cut before text found) {l : Located Lexeme} (hl : l ∈ found) :
    ∃ front read rest, before ++ text = front ++ read ++ rest ∧ before <+: front ∧
      Reads front rest read l.value ∧ l.span = ⟨byteLength front, byteLength (front ++ read)⟩ := by
  induction h with
  | done => cases hl
  | @skip before gap rest found _ _ ih =>
    obtain ⟨front, read, behind, htext, hfront, hread⟩ := ih hl
    rw [List.append_assoc] at htext
    exact ⟨front, read, behind, htext, (List.prefix_append before gap).trans hfront, hread⟩
  | @read before piece rest value found hreads _ ih =>
    rcases List.mem_cons.mp hl with rfl | hl
    · have htext : before ++ (piece ++ rest) = before ++ piece ++ rest := by rw [List.append_assoc]
      exact ⟨before, piece, rest, htext, List.prefix_rfl, hreads, rfl⟩
    · obtain ⟨front, read, behind, htext, hfront, hread⟩ := ih hl
      rw [List.append_assoc] at htext
      exact ⟨front, read, behind, htext, (List.prefix_append before piece).trans hfront, hread⟩

theorem byteLength_le_start (h : Cut before text found) {l : Located Lexeme} (hl : l ∈ found) :
    byteLength before ≤ l.span.start := by
  obtain ⟨front, read, rest, -, ⟨more, rfl⟩, -, hspan⟩ := h.exists_reads hl
  rw [hspan, byteLength_append]
  exact Nat.le_add_right _ _

theorem start_lt_stop (h : Cut before text found) {l : Located Lexeme} (hl : l ∈ found) :
    l.span.start < l.span.stop := by
  obtain ⟨front, read, rest, -, -, hread, hspan⟩ := h.exists_reads hl
  rw [hspan, byteLength_append]
  exact Nat.lt_add_of_pos_right (byteLength_pos hread.nonempty)

/-- Each lexeme stands behind the one before it. -/
theorem pairwise (h : Cut before text found) :
    found.Pairwise fun l m => l.span.start < m.span.start ∧ l.span.stop ≤ m.span.start := by
  induction h with
  | done => exact .nil
  | skip _ _ ih => exact ih
  | read hreads hcut ih =>
    refine .cons (fun m hm => ?_) ih
    have hle := hcut.byteLength_le_start hm
    refine ⟨Nat.lt_of_lt_of_le ?_ hle, hle⟩
    rw [byteLength_append]
    exact Nat.lt_add_of_pos_right (byteLength_pos hreads.nonempty)

theorem isCharBoundary {source : String} (h : Cut [] source.toList found) {l : Located Lexeme}
    (hl : l ∈ found) : IsCharBoundary source l.span.start ∧ IsCharBoundary source l.span.stop := by
  obtain ⟨front, read, rest, htext, -, -, hspan⟩ := h.exists_reads hl
  rw [List.nil_append] at htext
  rw [hspan]
  constructor
  · exact isCharBoundary_iff.mpr ⟨front, read ++ rest, by rw [htext, List.append_assoc], rfl⟩
  · exact isCharBoundary_iff.mpr ⟨front ++ read, rest, htext, rfl⟩

end Cut

end Source

/-- The tokens and the bad text of a scan, in the order of their places. -/
def Scan.lexemes (s : Scan) : List (Located Source.Lexeme) :=
  (s.tokens.map (·.map Source.Lexeme.token)).merge (s.badText.map (·.map Source.Lexeme.bad))
    fun l m => l.span.start ≤ m.span.start

end TensorLoops
