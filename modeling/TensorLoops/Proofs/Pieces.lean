import TensorLoops.Proofs.Lexemes
import TensorLoops.Proofs.Spelling

namespace TensorLoops

namespace Source

theorem decimalValue_cons (c : Char) (cs : List Char) :
    decimalValue (c :: cs) = decimalValue cs + 10 ^ cs.length * (c.toNat - '0'.toNat) := by
  simp [decimalValue, Nat.ofDigits_append]

/-- Reading the digits from the left comes to the same. -/
theorem ofDigitChars_eq (cs : List Char) (init : Nat) :
    Nat.ofDigitChars 10 cs init = decimalValue cs + 10 ^ cs.length * init := by
  induction cs generalizing init with
  | nil => simp [decimalValue]
  | cons c cs ih =>
    rw [Nat.ofDigitChars_cons, ih, decimalValue_cons, List.length_cons, Nat.pow_succ]
    ring

theorem ofDigitChars_zero (cs : List Char) : Nat.ofDigitChars 10 cs 0 = decimalValue cs := by
  rw [ofDigitChars_eq, Nat.mul_zero, Nat.add_zero]

section FirstCharacter

variable {c : Char}

theorem not_startsWord_of_isDigit (h : c.isDigit = true) : startsWord c = false := by
  have hdigits : ∀ n < 58, 48 ≤ n → startsWord (Char.ofNat n) = false := by decide
  obtain ⟨hlow, hhigh⟩ := Char.isDigit_iff_toNat.mp h
  rw [← Char.ofNat_toNat c]
  exact hdigits c.toNat (Nat.lt_succ_of_le hhigh) hlow

theorem not_isDigit_of_startsWord (h : startsWord c = true) : c.isDigit = false := by
  cases hdigit : c.isDigit with
  | false => rfl
  | true =>
    rw [not_startsWord_of_isDigit hdigit] at h
    cases h

/-- What a text may begin with. -/
theorem first_cases (c : Char) :
    isBlank c = true ∨ c = '#' ∨ c.isDigit = true ∨ startsWord c = true ∨ c = '%' ∨
      (∃ s, Symbol.char s = c) ∨
      (∀ run, pieceKind c run = .bad) ∧ (∀ d, continues c d = false) ∧ c.isDigit = false := by
  by_cases hblank : isBlank c = true
  · exact .inl hblank
  by_cases hhash : c = '#'
  · exact .inr (.inl hhash)
  by_cases hdigit : c.isDigit = true
  · exact .inr (.inr (.inl hdigit))
  by_cases hword : startsWord c = true
  · exact .inr (.inr (.inr (.inl hword)))
  by_cases hsign : c = '%'
  · exact .inr (.inr (.inr (.inr (.inl hsign))))
  refine .inr (.inr (.inr (.inr (.inr ?_))))
  cases hsymbol : Symbol.ofChar? c with
  | some s => exact .inl ⟨s, Symbol.char_of_ofChar? hsymbol⟩
  | none =>
    right
    simp [pieceKind, continues, hblank, hhash, hdigit, hword, hsign, hsymbol]

theorem pieceKind_digit (h : c.isDigit = true) (run : List Char) :
    pieceKind c run = numberKind (c :: run) := by
  have hword := inWord_of_isDigit h
  simp [pieceKind, not_isBlank_of_inWord hword, inWord_ne_hash hword, h]

theorem continues_digit (h : c.isDigit = true) : continues c = Char.isDigit := by
  have hword := inWord_of_isDigit h
  funext d
  simp [continues, not_isBlank_of_inWord hword, inWord_ne_hash hword, h]

theorem pieceKind_word (h : startsWord c = true) (run : List Char) :
    pieceKind c run = .token (wordToken (c :: run)) := by
  have hword := inWord_of_startsWord h
  simp [pieceKind, not_isBlank_of_inWord hword, inWord_ne_hash hword,
    not_isDigit_of_startsWord h, h]

theorem continues_word (h : startsWord c = true) : continues c = inWord := by
  have hword := inWord_of_startsWord h
  funext d
  simp [continues, not_isBlank_of_inWord hword, inWord_ne_hash hword,
    not_isDigit_of_startsWord h, h]

theorem pieceKind_sign (run : List Char) :
    pieceKind '%' run = if run.isEmpty then .bad else .token (.value (.ofList run)) := by
  simp [pieceKind, isBlank, startsWord]

theorem continues_sign : continues '%' = inWord := by
  funext d
  simp [continues, isBlank, startsWord]

theorem continues_hash : continues '#' = (· != '\n') := by
  funext d
  simp [continues, isBlank]

theorem pieceKind_symbol (s : Symbol) (run : List Char) :
    pieceKind s.char run = .token (.symbol s) := by
  cases s <;> rfl

theorem continues_symbol (s : Symbol) (d : Char) : continues s.char d = false := by
  cases s <;> rfl

end FirstCharacter

/-- The first piece of a text, and the text that follows it. -/
structure IsFirstPiece (c : Char) (run rest : List Char) : Prop where
  run : ∀ d ∈ run, continues c d = true
  stop : ∀ d ∈ rest.head?, continues c d = false

section Pieces

variable {c : Char} {run rest text : List Char} {t : Token}

/-- A number fits in 64 bits when it is read as a token, and the token is that number. -/
theorem numberKind_eq_token_iff {digits : List Char} :
    numberKind digits = .token t ↔ ∃ n : UInt64, t = .number n ∧ n.toNat = decimalValue digits := by
  unfold numberKind
  rw [ofDigitChars_zero]
  dsimp only
  split
  · rename_i hlt
    constructor
    · intro h
      cases h
      exact ⟨_, rfl, UInt64.toNat_ofNat_of_lt' hlt⟩
    · rintro ⟨n, rfl, hn⟩
      rw [← hn, UInt64.ofNat_toNat]
  · rename_i hge
    constructor
    · intro h
      cases h
    · rintro ⟨n, -, hn⟩
      exact absurd (hn ▸ n.toNat_lt) hge

theorem numberKind_eq_bad_iff {digits : List Char} :
    numberKind digits = .bad ↔ 2 ^ 64 ≤ decimalValue digits := by
  unfold numberKind
  rw [ofDigitChars_zero]
  dsimp only
  have hsize : UInt64.size = 2 ^ 64 := rfl
  split
  · rename_i hlt
    simp
    omega
  · rename_i hge
    simp
    omega

theorem numberKind_ne_gap (digits : List Char) : numberKind digits ≠ .gap := by
  unfold numberKind
  dsimp only
  split <;> simp

theorem pieceKind_blank (h : isBlank c = true) (run : List Char) : pieceKind c run = .gap := by
  simp [pieceKind, h]

theorem pieceKind_hash (run : List Char) : pieceKind '#' run = .gap := by
  simp [pieceKind]

/-- The word of a keyword is one the scanner reads as a whole. -/
theorem exists_keyword_text (k : Keyword) :
    ∃ c run, k.text.toList = c :: run ∧ startsWord c = true ∧ ∀ d ∈ run, inWord d = true := by
  cases k <;> exact ⟨_, _, rfl, rfl, List.all_eq_true.mp rfl⟩

theorem denotes_wordToken (hc : startsWord c = true) (hrun : ∀ d ∈ run, inWord d = true) :
    Denotes (c :: run) (wordToken (c :: run)) := by
  unfold wordToken
  cases hkeyword : Keyword.ofText? (.ofList (c :: run)) with
  | some k =>
    have htext := congrArg String.toList (Keyword.text_of_ofText? hkeyword)
    rw [String.toList_ofList] at htext
    rw [← htext]
    exact .keyword k
  | none =>
    refine .ident hc hrun fun k hk => ?_
    rw [← hk, Keyword.ofText?_text] at hkeyword
    cases hkeyword

theorem token_cases (hkind : pieceKind c run = .token t) :
    (c.isDigit = true ∧ ∃ n, t = .number n ∧ n.toNat = decimalValue (c :: run)) ∨
      (startsWord c = true ∧ t = wordToken (c :: run)) ∨
      (c = '%' ∧ run ≠ [] ∧ t = .value (.ofList run)) ∨
      ∃ s, Symbol.char s = c ∧ t = .symbol s := by
  rcases first_cases c with hblank | rfl | hdigit | hword | rfl | ⟨s, rfl⟩ | ⟨hbad, -, -⟩
  · rw [pieceKind_blank hblank] at hkind
    cases hkind
  · rw [pieceKind_hash] at hkind
    cases hkind
  · rw [pieceKind_digit hdigit] at hkind
    exact .inl ⟨hdigit, numberKind_eq_token_iff.mp hkind⟩
  · rw [pieceKind_word hword] at hkind
    cases hkind
    exact .inr (.inl ⟨hword, rfl⟩)
  · rw [pieceKind_sign] at hkind
    cases run with
    | nil => cases hkind
    | cons d ds =>
      cases hkind
      exact .inr (.inr (.inl ⟨rfl, List.cons_ne_nil d ds, rfl⟩))
  · rw [pieceKind_symbol] at hkind
    cases hkind
    exact .inr (.inr (.inr ⟨s, rfl, rfl⟩))
  · rw [hbad] at hkind
    cases hkind

/-- What the scanner takes for a token denotes that token. -/
theorem denotes_of_pieceKind (hrun : ∀ d ∈ run, continues c d = true)
    (hkind : pieceKind c run = .token t) : Denotes (c :: run) t := by
  rcases token_cases hkind with
    ⟨hdigit, n, rfl, hn⟩ | ⟨hword, rfl⟩ | ⟨rfl, hne, rfl⟩ | ⟨s, rfl, rfl⟩
  · rw [continues_digit hdigit] at hrun
    exact .number ⟨List.cons_ne_nil c run, List.forall_mem_cons.mpr ⟨hdigit, hrun⟩⟩ hn
  · rw [continues_word hword] at hrun
    exact denotes_wordToken hword hrun
  · rw [continues_sign] at hrun
    exact .value hne hrun
  · cases run with
    | nil => exact .symbol s
    | cons d ds =>
      have hd := hrun d List.mem_cons_self
      rw [continues_symbol] at hd
      cases hd

/-- A text that denotes a token is read as that token. -/
theorem Denotes.pieceKind_eq (h : Denotes text t) :
    ∃ c run, text = c :: run ∧ (∀ d ∈ run, continues c d = true) ∧
      pieceKind c run = .token t := by
  cases h with
  | keyword k =>
    obtain ⟨c, run, htext, hc, hrun⟩ := exists_keyword_text k
    refine ⟨c, run, htext, by rwa [continues_word hc], ?_⟩
    rw [pieceKind_word hc, ← htext, wordToken, String.ofList_toList, Keyword.ofText?_text]
  | symbol s => exact ⟨_, _, rfl, by simp, pieceKind_symbol s []⟩
  | number hdigits hn =>
    obtain ⟨c, run, rfl⟩ := List.exists_cons_of_ne_nil hdigits.nonempty
    obtain ⟨hc, hrun⟩ := List.forall_mem_cons.mp hdigits.digits
    refine ⟨c, run, rfl, by rwa [continues_digit hc], ?_⟩
    rw [pieceKind_digit hc]
    exact numberKind_eq_token_iff.mpr ⟨_, rfl, hn⟩
  | value hne hname =>
    refine ⟨_, _, rfl, by rwa [continues_sign], ?_⟩
    rw [pieceKind_sign, if_neg (by simpa using hne)]
  | @ident c cs hc hcs hnot =>
    refine ⟨_, _, rfl, by rwa [continues_word hc], ?_⟩
    rw [pieceKind_word hc, wordToken]
    cases hkeyword : Keyword.ofText? (.ofList (c :: cs)) with
    | none => rfl
    | some k => exact absurd (Keyword.text_of_ofText? hkeyword) (hnot k)

/-- A token goes on as long as one of its characters follows. -/
theorem continues_eq_extendedBy (hkind : pieceKind c run = .token t) (d : Char) :
    continues c d = extendedBy t d := by
  rcases token_cases hkind with ⟨hdigit, n, rfl, -⟩ | ⟨hword, rfl⟩ | ⟨rfl, -, rfl⟩ | ⟨s, rfl, rfl⟩
  · rw [continues_digit hdigit, extendedBy]
  · rw [continues_word hword, wordToken]
    split <;> rfl
  · rw [continues_sign, extendedBy]
  · rw [continues_symbol, extendedBy]

/-- Bad text is a number that is too large, or a single character. -/
theorem bad_cases (hrun : ∀ d ∈ run, continues c d = true) (hkind : pieceKind c run = .bad) :
    (c.isDigit = true ∧ 2 ^ 64 ≤ decimalValue (c :: run)) ∨ (c.isDigit = false ∧ run = []) := by
  rcases first_cases c with hblank | rfl | hdigit | hword | rfl | ⟨s, rfl⟩ | ⟨-, hstop, hdigit⟩
  · rw [pieceKind_blank hblank] at hkind
    cases hkind
  · rw [pieceKind_hash] at hkind
    cases hkind
  · rw [pieceKind_digit hdigit] at hkind
    exact .inl ⟨hdigit, numberKind_eq_bad_iff.mp hkind⟩
  · rw [pieceKind_word hword] at hkind
    cases hkind
  · rw [pieceKind_sign] at hkind
    cases run with
    | nil => exact .inr ⟨by decide, rfl⟩
    | cons d ds => cases hkind
  · rw [pieceKind_symbol] at hkind
    cases hkind
  · cases run with
    | nil => exact .inr ⟨hdigit, rfl⟩
    | cons d ds =>
      have hd := hrun d List.mem_cons_self
      rw [hstop] at hd
      cases hd

theorem gap_cases (hkind : pieceKind c run = .gap) : isBlank c = true ∨ c = '#' := by
  unfold pieceKind at hkind
  split at hkind
  · rename_i hgap
    simpa using hgap
  · split at hkind
    · exact absurd hkind (numberKind_ne_gap _)
    · split at hkind
      · cases hkind
      · split at hkind
        · split at hkind <;> cases hkind
        · split at hkind <;> cases hkind

/-- A run stops in front of a character that is not part of it. -/
theorem stop_dropWhile (p : Char → Bool) (cs : List Char) :
    ∀ d ∈ (cs.dropWhile p).head?, p d = false := by
  intro d hd
  have hnot := List.head?_dropWhile_not p cs
  rw [Option.mem_def.mp hd] at hnot
  exact hnot

theorem isFirstPiece_takeWhile (c : Char) (cs : List Char) :
    IsFirstPiece c (cs.takeWhile (continues c)) (cs.dropWhile (continues c)) :=
  ⟨fun _ hd => List.mem_takeWhile_imp hd, stop_dropWhile _ cs⟩

/-- A comment is a piece of its own. -/
theorem skipped_comment_iff : Skipped rest ('#' :: run) ↔ IsFirstPiece '#' run rest := by
  constructor
  · rintro (hblank | ⟨hrun, hstop⟩)
    · cases hblank
    constructor
    · intro d hd
      rw [continues_hash, bne_iff_ne]
      exact ne_of_mem_of_not_mem hd hrun
    · intro d hd
      rw [continues_hash, hstop d hd]
      rfl
  · rintro ⟨hrun, hstop⟩
    rw [continues_hash] at hrun hstop
    exact .comment (fun hline => by simpa using hrun _ hline) fun d hd => by simpa using hstop d hd

theorem decimalValue_digit_lt (h : c.isDigit = true) : decimalValue [c] < 2 ^ 64 := by
  obtain ⟨-, hlast⟩ := Char.isDigit_iff_toNat.mp h
  have hnine : '9'.toNat = 57 := rfl
  have hvalue : decimalValue [c] = c.toNat - '0'.toNat := by simp [decimalValue]
  omega

/-- Where neither a token nor a gap stands, the scanner finds bad text of one character. -/
theorem unreadable_iff : Unreadable (c :: rest) ↔
    c.isDigit = false ∧ pieceKind c [] = .bad ∧ ∀ d ∈ rest.head?, continues c d = false := by
  constructor
  · intro h
    rcases first_cases c with hblank | rfl | hdigit | hword | rfl | ⟨s, rfl⟩ | ⟨hbad, hstop, hdigit⟩
    · exact absurd (.blank hblank) (h.no_gap [c] rest rfl)
    · -- up to the end of the line this is a comment
      have hcomment := skipped_comment_iff.mpr (isFirstPiece_takeWhile '#' rest)
      refine absurd hcomment (h.no_gap _ _ ?_)
      rw [List.cons_append, List.takeWhile_append_dropWhile]
    · -- one digit alone is a number that fits
      have hlt := decimalValue_digit_lt hdigit
      refine absurd (.number ⟨List.cons_ne_nil c [], by simpa using hdigit⟩ ?_)
        (h.no_token [c] rest (.number (.ofNat (decimalValue [c]))) rfl)
      exact UInt64.toNat_ofNat_of_lt' hlt
    · exact absurd (denotes_wordToken hword (by simp)) (h.no_token [c] rest _ rfl)
    · refine ⟨by decide, rfl, fun d hd => ?_⟩
      cases rest with
      | nil => cases hd
      | cons e rest =>
        cases hd
        rw [continues_sign]
        cases he : inWord d with
        | false => rfl
        | true =>
          exact absurd (.value (List.cons_ne_nil d []) (by simpa using he))
            (h.no_token ['%', d] rest _ rfl)
    · exact absurd (.symbol s) (h.no_token [s.char] rest _ rfl)
    · exact ⟨hdigit, hbad [], fun d _ => hstop d⟩
  · rintro ⟨-, hbad, hstop⟩
    constructor
    · rintro start behind t htext hdenotes
      obtain ⟨c', run, rfl, hrun, hkind⟩ := hdenotes.pieceKind_eq
      obtain ⟨rfl, hrest⟩ := List.cons.inj htext
      cases run with
      | nil =>
        rw [hbad] at hkind
        cases hkind
      | cons d ds =>
        have hd := hstop d (by simp [hrest])
        rw [hrun d List.mem_cons_self] at hd
        cases hd
    · rintro start behind htext hskipped
      cases hskipped with
      | blank hblank =>
        obtain ⟨rfl, -⟩ := List.cons.inj htext
        rw [pieceKind_blank hblank] at hbad
        cases hbad
      | comment _ _ =>
        obtain ⟨rfl, -⟩ := List.cons.inj htext
        cases hbad

/-- A digit that a piece ends with goes on with the digits behind it. -/
theorem continues_of_isDigit {d e : Char} (hd : d = c ∨ continues c d = true)
    (hdigit : d.isDigit = true) (he : e.isDigit = true) : continues c e = true := by
  have hword := inWord_of_isDigit hdigit
  rcases first_cases c with hblank | rfl | hfirst | hfirst | rfl | ⟨s, rfl⟩ | ⟨-, hstop, hnot⟩
  · have hd : isBlank d = true := by
      rcases hd with rfl | hd
      · exact hblank
      · rwa [continues_blank hblank] at hd
    rw [not_isBlank_of_inWord hword] at hd
    cases hd
  · have hne : e ≠ '\n' := fun h => absurd (h ▸ he) (by decide)
    simpa [continues, isBlank] using hne
  · rwa [continues_digit hfirst]
  · rw [continues_word hfirst]
    exact inWord_of_isDigit he
  · rw [continues_sign]
    exact inWord_of_isDigit he
  · rcases hd with rfl | hd
    · cases s <;> cases hdigit
    · rw [continues_symbol] at hd
      cases hd
  · rcases hd with rfl | hd
    · rw [hnot] at hdigit
      cases hdigit
    · rw [hstop] at hd
      cases hd

end Pieces

end Source

end TensorLoops
