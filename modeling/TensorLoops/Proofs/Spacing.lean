import TensorLoops.Proofs.Scanning

namespace TensorLoops

namespace Source

/-- What may stand between tokens: a blank, or a comment together with the end of its line. -/
inductive Gap where
  | blank (c : Char) (h : isBlank c = true)
  | comment (body : List Char) (h : '\n' ∉ body)

def Gap.text : Gap → List Char
  | blank c _ => [c]
  | comment body _ => '#' :: (body ++ ['\n'])

def gapText (gaps : List Gap) : List Char := gaps.flatMap Gap.text

/-- The text begins with a character that ends any word or number in front of it. -/
theorem Gap.exists_text (gap : Gap) :
    ∃ c cs, gap.text = c :: cs ∧ inWord c = false := by
  cases gap with
  | blank c h =>
    refine ⟨c, [], rfl, ?_⟩
    cases hword : inWord c with
    | false => rfl
    | true =>
      rw [not_isBlank_of_inWord hword] at h
      cases h
  | comment body h => exact ⟨'#', body ++ ['\n'], rfl, by decide⟩

theorem Cut.skip_gap {gap : Gap} {before rest : List Char} {found : List (Located Lexeme)}
    (h : Cut (before ++ gap.text) rest found) : Cut before (gap.text ++ rest) found := by
  cases gap with
  | blank c hc => exact .skip (.blank hc) h
  | comment body hbody =>
    -- the end of the line is a gap of its own
    have hline : Cut (before ++ '#' :: body) (['\n'] ++ rest) found := by
      refine .skip (.blank rfl) ?_
      rwa [List.append_assoc]
    have htext : (Gap.comment body hbody).text ++ rest = '#' :: body ++ '\n' :: rest := by
      simp [Gap.text]
    rw [htext]
    exact .skip (.comment hbody fun d hd => (Option.some.inj hd).symm) hline

theorem Cut.skip_gaps {gaps : List Gap} {before rest : List Char} {found : List (Located Lexeme)}
    (h : Cut (before ++ gapText gaps) rest found) : Cut before (gapText gaps ++ rest) found := by
  induction gaps generalizing before with
  | nil =>
    rw [gapText, List.flatMap_nil, List.append_nil] at h
    exact h
  | cons gap gaps ih =>
    rw [gapText, List.flatMap_cons, ← List.append_assoc] at h
    rw [gapText, List.flatMap_cons, List.append_assoc]
    exact .skip_gap (ih h)

end Source

/-- There is a text for the token: values are named by words, and an identifier is a word that does
not begin with a digit and is not reserved. -/
def Token.Writable : Token → Prop
  | .value name => Source.IsName name
  | .ident name => Source.IsName name ∧ (∀ c ∈ name.toList.head?, Source.startsWord c = true) ∧
      ∀ k : Keyword, k.text ≠ name
  | .keyword _ | .symbol _ | .number _ => True

namespace Source

/-- The text of a token denotes it. -/
theorem denotes_text {t : Token} (h : t.Writable) : Denotes t.text.toList t := by
  cases t with
  | keyword k => exact .keyword k
  | symbol s =>
    have htext : (Token.symbol s).text.toList = [s.char] := String.toList_singleton s.char
    rw [htext]
    exact .symbol s
  | number n =>
    refine .number ⟨by simp [Token.text], fun _ => isDigit_of_mem_repr⟩ ?_
    rw [← ofDigitChars_zero, Token.text, Nat.toList_repr, Nat.ofDigitChars_ten_toDigits]
  | value name =>
    obtain ⟨hne, hword⟩ := h
    have hdenotes := Denotes.value hne hword
    rw [String.ofList_toList] at hdenotes
    simpa [Token.text] using hdenotes
  | ident name =>
    obtain ⟨⟨hne, hword⟩, hfirst, hfree⟩ := h
    obtain ⟨c, cs, hname⟩ := List.exists_cons_of_ne_nil hne
    rw [hname] at hword hfirst
    have htext : String.ofList (c :: cs) = name := by rw [← hname, String.ofList_toList]
    have hdenotes := Denotes.ident (hfirst c rfl) (List.forall_mem_cons.mp hword).2
      (fun k => by rw [htext]; exact hfree k)
    rw [htext, ← hname] at hdenotes
    exact hdenotes

theorem extendedBy_of_not_inWord {c : Char} (h : inWord c = false) (t : Token) :
    extendedBy t c = false := by
  cases t with
  | number n =>
    cases hdigit : c.isDigit with
    | false => exact hdigit
    | true =>
      rw [inWord_of_isDigit hdigit] at h
      cases h
  | symbol s => rfl
  | keyword k => exact h
  | value name => exact h
  | ident name => exact h

/-- Tokens in order, each with the gaps behind it. -/
abbrev Spaced := List (Token × List Gap)

namespace Spaced

def text (parts : Spaced) : List Char := parts.flatMap fun x => x.1.text.toList ++ gapText x.2

/-- The tokens at their places, the first of them at `start`. -/
def tokens (start : Nat) : Spaced → List (Located Token)
  | [] => []
  | (t, gaps) :: rest =>
    let stop := start + t.text.utf8ByteSize
    ⟨t, ⟨start, stop⟩⟩ :: tokens (stop + byteLength (gapText gaps)) rest

/-- There is a text for each token, and only the last one may be without a gap behind it. -/
structure Readable (parts : Spaced) : Prop where
  writable : ∀ x ∈ parts, x.1.Writable
  gaps : ∀ x ∈ parts.dropLast, x.2 ≠ []

variable {x : Token × List Gap} {parts : Spaced}

theorem Readable.tail (h : Readable (x :: parts)) : parts.Readable where
  writable y hy := h.writable y (List.mem_cons_of_mem x hy)
  gaps y hy := by
    cases parts with
    | nil => cases hy
    | cons z parts => exact h.gaps y (List.mem_cons_of_mem x hy)

/-- No word or number runs over into what stands behind the first token. -/
theorem Readable.stop (h : Readable (x :: parts)) :
    ∀ d ∈ (gapText x.2 ++ text parts).head?, inWord d = false := by
  intro d hd
  obtain ⟨t, gaps⟩ := x
  cases gaps with
  | nil =>
    cases parts with
    | nil => cases hd
    | cons y parts => exact absurd rfl (h.gaps (t, []) List.mem_cons_self)
  | cons gap gaps =>
    obtain ⟨c, cs, htext, hc⟩ := gap.exists_text
    simp only [gapText, List.flatMap_cons, htext] at hd
    cases hd
    exact hc

/-- The text is cut into the tokens. -/
theorem Readable.cut (h : parts.Readable) (before : List Char) :
    Cut before (text parts)
      ((tokens (byteLength before) parts).map (·.map Lexeme.token)) := by
  induction parts generalizing before with
  | nil => exact .done
  | cons x parts ih =>
    obtain ⟨t, gaps⟩ := x
    have hsize : byteLength (before ++ t.text.toList) =
        byteLength before + t.text.utf8ByteSize := by
      rw [byteLength_append, byteLength_toList]
    have hrest := ih h.tail (before ++ t.text.toList ++ gapText gaps)
    rw [byteLength_append, hsize] at hrest
    have htoken : Reads before (gapText gaps ++ text parts) t.text.toList (.token t) :=
      .token (denotes_text (h.writable _ List.mem_cons_self))
        fun d hd => extendedBy_of_not_inWord (h.stop d hd) t
    have hcut := Cut.read htoken hrest.skip_gaps
    rw [hsize] at hcut
    rw [text, List.flatMap_cons, List.append_assoc]
    exact hcut

end Spaced

/-- What is written token by token is scanned as these tokens, each at its place, and nothing is bad
text. It does not matter what the gaps between the tokens are, nor whether there are gaps in front
of the first token or behind the last one. -/
theorem scan_spaced (front : List Gap) {parts : Spaced} (h : parts.Readable) :
    scan (.ofList (gapText front ++ parts.text)) =
      ⟨parts.tokens (byteLength (gapText front)), []⟩ := by
  refine scan_of_cut ?_
  rw [String.toList_ofList]
  exact .skip_gaps (h.cut (gapText front))

/-- A word that is reserved and one that begins like it, the largest number, and a comment with
quotes and a longer character. -/
def wordsAndComments : Spaced :=
  [(.keyword .loop, [.comment ['"', 'é', '"', '%'] (by decide)]),
    (.ident "looped", [.blank '\t' rfl]),
    (.number 18446744073709551615, [.comment [] (by decide), .blank '\r' rfl]),
    (.value "0x", [])]

theorem scan_spaced_comments :
    wordsAndComments.Readable ∧
      scan (.ofList (gapText [.blank ' ' rfl] ++ wordsAndComments.text)) =
        ⟨[⟨.keyword .loop, ⟨1, 5⟩⟩, ⟨.ident "looped", ⟨12, 18⟩⟩,
          ⟨.number 18446744073709551615, ⟨19, 39⟩⟩, ⟨.value "0x", ⟨42, 45⟩⟩], []⟩ := by
  have hreadable : wordsAndComments.Readable := by
    constructor
    · have hlooped : Token.Writable (.ident "looped") :=
        ⟨⟨by decide, List.all_eq_true.mp rfl⟩, by simp [startsWord], fun k => by
          cases k <;> decide⟩
      have hvalue : Token.Writable (.value "0x") := ⟨by decide, List.all_eq_true.mp rfl⟩
      simp only [wordsAndComments, List.forall_mem_cons]
      exact ⟨trivial, hlooped, trivial, hvalue, fun _ hx => absurd hx List.not_mem_nil⟩
    · simp [wordsAndComments]
  refine ⟨hreadable, ?_⟩
  rw [scan_spaced _ hreadable]
  decide +kernel

end Source

end TensorLoops
