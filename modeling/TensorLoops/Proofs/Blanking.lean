import TensorLoops.Proofs.Scanning
import TensorLoops.Source.Parse

namespace TensorLoops

/-- Whether a byte belongs to the place. -/
def Span.covers (s : Span) (offset : Nat) : Bool := s.start ≤ offset && offset < s.stop

namespace Source

/-- A text that begins at `offset`, with a space for each byte of the characters at the offsets
that `p` picks out. -/
def blankOut (p : Nat → Bool) (offset : Nat) : List Char → List Char
  | [] => []
  | c :: cs =>
    (if p offset then List.replicate c.utf8Size ' ' else [c]) ++
      blankOut p (offset + c.utf8Size) cs

theorem byteLength_spaces (n : Nat) : byteLength (List.replicate n ' ') = n := by
  induction n with
  | zero => rfl
  | succ n ih =>
    rw [List.replicate_succ, byteLength, ih, Nat.add_comm]
    rfl

section BlankOut

variable (p : Nat → Bool) (offset : Nat)

theorem blankOut_append (s t : List Char) :
    blankOut p offset (s ++ t) = blankOut p offset s ++ blankOut p (offset + byteLength s) t := by
  induction s generalizing offset with
  | nil => rfl
  | cons c s ih => rw [List.cons_append, blankOut, blankOut, ih, byteLength, List.append_assoc,
      Nat.add_assoc]

/-- Places are the same in the new text. -/
theorem byteLength_blankOut (text : List Char) :
    byteLength (blankOut p offset text) = byteLength text := by
  induction text generalizing offset with
  | nil => rfl
  | cons c cs ih =>
    rw [blankOut, byteLength_append, ih, byteLength]
    split
    · rw [byteLength_spaces]
    · rfl

theorem head?_blankOut {text : List Char} :
    ∀ d ∈ (blankOut p offset text).head?, d = ' ' ∨ d ∈ text.head? := by
  intro d hd
  cases text with
  | nil => cases hd
  | cons c cs =>
    rw [blankOut] at hd
    split at hd
    · obtain ⟨n, hsize⟩ := Nat.exists_eq_add_one.mpr c.utf8Size_pos
      rw [hsize, List.replicate_succ] at hd
      exact .inl (Option.some.inj hd).symm
    · exact .inr hd

variable {p offset} {text : List Char}

theorem blankOut_of_not (h : ∀ o, offset ≤ o → o < offset + byteLength text → p o = false) :
    blankOut p offset text = text := by
  induction text generalizing offset with
  | nil => rfl
  | cons c cs ih =>
    have hpos := c.utf8Size_pos
    rw [byteLength] at h
    rw [blankOut, h offset (Nat.le_refl _) (by omega), ih fun o hle hlt => h o (by omega) (by omega)]
    rfl

theorem blankOut_of_all (h : ∀ o, offset ≤ o → o < offset + byteLength text → p o = true) :
    blankOut p offset text = List.replicate (byteLength text) ' ' := by
  induction text generalizing offset with
  | nil => rfl
  | cons c cs ih =>
    have hpos := c.utf8Size_pos
    rw [byteLength] at h
    rw [blankOut, h offset (Nat.le_refl _) (by omega), ih fun o hle hlt => h o (by omega) (by omega),
      byteLength, ← List.replicate_append_replicate]
    rfl

end BlankOut

/-- A blank in front of a text is skipped. -/
theorem Cut.after_blank {c : Char} {before rest : List Char} {found : List (Located Lexeme)}
    (hc : isBlank c = true) (h : Cut before (c :: rest) found) : Cut (before ++ [c]) rest found := by
  have hfound : found = lexemesFrom (byteLength (before ++ [c])) rest := by
    rw [h.eq_lexemesFrom]
    exact lexemesFrom_blank hc before rest
  rw [hfound]
  refine cut_lexemesFrom rest fun d hd e _ hdigit => ?_
  rw [List.getLast?_concat, Option.mem_some_iff] at hd
  rw [hd, not_isBlank_of_inWord (inWord_of_isDigit hdigit)] at hc
  cases hc

/-- The offsets that `p` picks out from `start` on are those of the bad text among the lexemes. -/
def PicksBad (p : Nat → Bool) (start : Nat) (found : List (Located Lexeme)) : Prop :=
  ∀ o, start ≤ o →
    (p o = true ↔ ∃ l ∈ found, l.value.isToken = false ∧ l.span.covers o = true)

section Picking

variable {p : Nat → Bool} {before text rest : List Char} {found : List (Located Lexeme)}
  {l : Located Lexeme}

theorem covers_eq_true {s : Span} {o : Nat} : s.covers o = true ↔ s.start ≤ o ∧ o < s.stop := by
  simp [Span.covers]

/-- In front of all lexemes nothing is picked out. -/
theorem PicksBad.not_before (h : PicksBad p (byteLength before) found)
    (hcut : Cut (before ++ text) rest found) :
    ∀ o, byteLength before ≤ o → o < byteLength before + byteLength text → p o = false := by
  intro o hle hlt
  cases hp : p o with
  | false => rfl
  | true =>
    obtain ⟨l, hl, -, hcovers⟩ := (h o hle).mp hp
    have hstart := hcut.byteLength_le_start hl
    rw [byteLength_append] at hstart
    have hin := (covers_eq_true.mp hcovers).1
    omega

theorem PicksBad.skip (h : PicksBad p (byteLength before) found) :
    PicksBad p (byteLength (before ++ text)) found := by
  intro o hle
  rw [byteLength_append] at hle
  exact h o (Nat.le_trans (Nat.le_add_right _ _) hle)

/-- Behind a token the bad text is that among the other lexemes. -/
theorem PicksBad.token {t : Token} {span : Span} {start : Nat}
    (h : PicksBad p start (⟨.token t, span⟩ :: found)) : PicksBad p start found := by
  intro o hle
  rw [h o hle]
  simp [Lexeme.isToken]

/-- Behind bad text the bad text is that among the other lexemes. -/
theorem PicksBad.behind {value : Lexeme} {start stop : Nat}
    (h : PicksBad p start (⟨value, ⟨start, stop⟩⟩ :: found)) (hle : start ≤ stop) :
    PicksBad p stop found := by
  intro o ho
  rw [h o (Nat.le_trans hle ho)]
  simp [Span.covers, Nat.not_lt_of_le ho]

/-- The end of a line stays where it is. -/
theorem Cut.head?_blankOut (hcut : Cut before rest found)
    (h : PicksBad p (byteLength before) found) (hline : ∀ d ∈ rest.head?, d = '\n') :
    ∀ d ∈ (blankOut p (byteLength before) rest).head?, d = '\n' := by
  cases rest with
  | nil => exact fun _ hd => nomatch hd
  | cons c rest =>
    cases hline c rfl
    have hbehind : Cut (before ++ ['\n']) rest found := hcut.after_blank rfl
    have hnot := h.not_before hbehind _ (Nat.le_refl _) (Nat.lt_succ_self _)
    rw [blankOut, hnot]
    exact fun d hd => (Option.some.inj hd).symm

/-- Blanking out the bad text leaves the tokens where they are. -/
theorem Cut.blankOut (h : Cut before text found) (hp : PicksBad p (byteLength before) found)
    {front : List Char} (hfront : byteLength front = byteLength before) :
    Cut front (blankOut p (byteLength before) text) (found.filter (·.value.isToken)) := by
  induction h generalizing front with
  | done => exact .done
  | @skip before gap rest found hskipped hcut ih =>
    have hgap : byteLength (front ++ gap) = byteLength (before ++ gap) := by
      simp only [byteLength_append, hfront]
    have hrest := ih hp.skip hgap
    rw [blankOut_append, blankOut_of_not (hp.not_before hcut), ← byteLength_append]
    refine .skip ?_ hrest
    cases hskipped with
    | blank hblank => exact .blank hblank
    | comment hbody hline => exact .comment hbody (hcut.head?_blankOut hp.skip hline)
  | @read before piece rest l found hreads hcut ih =>
    have hstop : byteLength before ≤ byteLength (before ++ piece) := by
      rw [byteLength_append]
      exact Nat.le_add_right _ _
    have hrest := @ih (hp.behind hstop)
    rw [blankOut_append, ← byteLength_append]
    cases l with
    | token t =>
      -- the token is kept, and a space behind it does not belong to it
      have hspans : byteLength (front ++ piece) = byteLength (before ++ piece) := by
        simp only [byteLength_append, hfront]
      rw [blankOut_of_not (hp.token.not_before hcut), List.filter_cons_of_pos rfl, ← hfront,
        ← hspans]
      rw [← hspans] at hrest
      refine .read ?_ (hrest rfl)
      obtain ⟨hdenotes, hends⟩ : Denotes piece t ∧ ∀ d ∈ rest.head?, extendedBy t d = false := by
        cases hreads
        exact ⟨‹_›, ‹_›⟩
      refine .token hdenotes fun d hd => ?_
      rcases Source.head?_blankOut _ _ d hd with rfl | hd
      · cases t <;> rfl
      · exact hends d hd
    | bad bad =>
      have hall : ∀ o, byteLength before ≤ o → o < byteLength before + byteLength piece →
          p o = true := by
        intro o hle hlt
        refine (hp o hle).mpr ⟨_, List.mem_cons_self, rfl, covers_eq_true.mpr ⟨hle, ?_⟩⟩
        rwa [byteLength_append]
      rw [blankOut_of_all hall, List.filter_cons_of_neg (by simp [Lexeme.isToken])]
      refine .skip_blanks (fun c hc => ?_) (hrest ?_)
      · rw [List.eq_of_mem_replicate hc]
        rfl
      · rw [byteLength_append, byteLength_append, byteLength_spaces, hfront]

end Picking

/-- The source text with a space in place of each byte of its bad text. -/
def withoutBadText (source : String) : String :=
  .ofList (blankOut (fun offset => (scan source).badText.any (·.span.covers offset)) 0
    source.toList)

theorem utf8ByteSize_withoutBadText (source : String) :
    (withoutBadText source).utf8ByteSize = source.utf8ByteSize := by
  rw [withoutBadText, utf8ByteSize_eq_byteLength, byteLength_blankOut, byteLength_toList]

theorem picksBad_badText (source : String) :
    PicksBad (fun offset => (scan source).badText.any (·.span.covers offset)) 0
      (lexemesFrom 0 source.toList) := by
  intro o _
  rw [scan_eq]
  dsimp only
  rw [List.any_filterMap, List.any_eq_true]
  refine exists_congr fun l => and_congr_right fun _ => ?_
  obtain ⟨t | text, span⟩ := l <;> simp [badPart?, Lexeme.isToken]

/-- The tokens of a text are left, and nothing is bad text. -/
theorem scan_withoutBadText (source : String) :
    scan (withoutBadText source) = ⟨(scan source).tokens, []⟩ := by
  have hstart : byteLength [] = byteLength [] := rfl
  have hcut := (cut_iff.mpr rfl).blankOut (picksBad_badText source) hstart
  refine scan_of_cut ?_
  rw [withoutBadText, String.toList_ofList, scan_eq, map_tokenParts]
  rwa [scan_eq] at hcut

end Source

open Source

/-- With spaces in place of its bad text, byte for byte, a source text has the same tokens at the
same places and no bad text. The same kernel is read from it, if any, and what else is wrong with
the text is wrong with the new one. -/
theorem parse_withoutBadText (source : String) :
    scan (withoutBadText source) = ⟨(scan source).tokens, []⟩ ∧
      (parse (withoutBadText source)).kernel = (parse source).kernel ∧
      (parse source).errors = (scan source).badText.map (·.map ParseError.badText) ++
        (parse (withoutBadText source)).errors := by
  have hscan := scan_withoutBadText source
  refine ⟨hscan, ?_⟩
  unfold parse
  dsimp only
  rw [hscan, utf8ByteSize_withoutBadText]
  cases readKernel source.utf8ByteSize (scan source).tokens <;> simp

/-- A longer character between two words, a sign without a name in front of a comment, and a number
that is too large. -/
example : withoutBadText "dimé\nfixed %#%\n99999999999999999999x" =
    "dim  \nfixed  #%\n                    x" := by
  decide +kernel

end TensorLoops
