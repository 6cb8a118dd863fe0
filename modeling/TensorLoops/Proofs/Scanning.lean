import TensorLoops.Proofs.Pieces

namespace TensorLoops

namespace Source

/-- No number runs over from one text into the next. -/
def DigitsApart (before rest : List Char) : Prop :=
  ∀ c ∈ before.getLast?, ∀ d ∈ rest.head?, c.isDigit = true → d.isDigit = false

theorem IsFirstPiece.digitsApart {c : Char} {run rest : List Char} (h : IsFirstPiece c run rest)
    (before : List Char) : DigitsApart (before ++ c :: run) rest := by
  intro d hd e he hdigit
  rw [List.getLast?_append, List.getLast?_cons, Option.some_or, Option.mem_some_iff] at hd
  cases hnext : e.isDigit with
  | false => rfl
  | true =>
    have hmem : d = c ∨ continues c d = true := by
      rw [← hd]
      cases hlast : run.getLast? with
      | none => exact .inl rfl
      | some l => exact .inr (h.run l (List.mem_of_getLast? hlast))
    have hcontinues := continues_of_isDigit hmem hdigit hnext
    rw [h.stop e he] at hcontinues
    cases hcontinues

/-- A text is empty, or it is its first piece and a text that is shorter. -/
theorem pieces_induction {motive : List Char → Prop} (nil : motive [])
    (piece : ∀ c run rest, IsFirstPiece c run rest → motive rest → motive (c :: run ++ rest))
    (text : List Char) : motive text := by
  induction text using pieces.induct with
  | case1 => exact nil
  | case2 c cs ih =>
    have htext := piece _ _ _ (isFirstPiece_takeWhile c cs) ih
    rwa [List.cons_append, List.takeWhile_append_dropWhile] at htext

/-- The lexeme that a piece is, unless it is a gap. -/
def lexemeOf? (p : Located Piece) : Option (Located Lexeme) :=
  match p.value.kind with
  | .gap => none
  | .token t => some ⟨.token t, p.span⟩
  | .bad => some ⟨.bad (.ofList p.value.text), p.span⟩

/-- The lexemes that the scanner finds in a text that begins at `start`. -/
def lexemesFrom (start : Nat) (text : List Char) : List (Located Lexeme) :=
  (place start (pieces text)).filterMap lexemeOf?

theorem lexemesFrom_nil (start : Nat) : lexemesFrom start [] = [] := by
  rw [lexemesFrom, pieces]
  rfl

section FirstPiece

variable {c : Char} {run rest : List Char} {t : Token}

theorem IsFirstPiece.pieces_eq (h : IsFirstPiece c run rest) :
    pieces (c :: run ++ rest) = ⟨pieceKind c run, c :: run⟩ :: pieces rest := by
  have htake : (run ++ rest).takeWhile (continues c) = run := by
    rw [List.takeWhile_append_of_pos h.run]
    cases rest with
    | nil => exact List.append_nil run
    | cons d rest => rw [List.takeWhile_cons_of_neg (by simp [h.stop d rfl]), List.append_nil]
  have hdrop : (run ++ rest).dropWhile (continues c) = rest := by
    rw [List.dropWhile_append_of_pos h.run]
    cases rest with
    | nil => rfl
    | cons d rest => exact List.dropWhile_cons_of_neg (by simp [h.stop d rfl])
  rw [List.cons_append, pieces, htake, hdrop]

/-- The lexemes of a text are its first piece, when that is no gap, and the lexemes behind it. -/
theorem IsFirstPiece.lexemesFrom_eq (h : IsFirstPiece c run rest) (before : List Char) :
    lexemesFrom (byteLength before) (c :: run ++ rest) =
      (lexemeOf? ⟨⟨pieceKind c run, c :: run⟩,
        ⟨byteLength before, byteLength (before ++ c :: run)⟩⟩).toList ++
      lexemesFrom (byteLength (before ++ c :: run)) rest := by
  rw [byteLength_append]
  unfold lexemesFrom
  rw [h.pieces_eq, place, List.filterMap_cons]
  cases lexemeOf? _ <;> rfl

theorem IsFirstPiece.lexemesFrom_gap (h : IsFirstPiece c run rest)
    (hkind : pieceKind c run = .gap) (before : List Char) :
    lexemesFrom (byteLength before) (c :: run ++ rest) =
      lexemesFrom (byteLength (before ++ c :: run)) rest := by
  rw [h.lexemesFrom_eq, hkind]
  rfl

theorem IsFirstPiece.lexemesFrom_token (h : IsFirstPiece c run rest)
    (hkind : pieceKind c run = .token t) (before : List Char) :
    lexemesFrom (byteLength before) (c :: run ++ rest) =
      ⟨.token t, ⟨byteLength before, byteLength (before ++ c :: run)⟩⟩ ::
        lexemesFrom (byteLength (before ++ c :: run)) rest := by
  rw [h.lexemesFrom_eq, hkind]
  rfl

theorem IsFirstPiece.lexemesFrom_bad (h : IsFirstPiece c run rest)
    (hkind : pieceKind c run = .bad) (before : List Char) :
    lexemesFrom (byteLength before) (c :: run ++ rest) =
      ⟨.bad (.ofList (c :: run)), ⟨byteLength before, byteLength (before ++ c :: run)⟩⟩ ::
        lexemesFrom (byteLength (before ++ c :: run)) rest := by
  rw [h.lexemesFrom_eq, hkind]
  rfl

/-- Bad text stands where no token and no gap does, or is all the digits of a large number. -/
theorem IsFirstPiece.reads_bad (h : IsFirstPiece c run rest) (hkind : pieceKind c run = .bad)
    {before : List Char} (hapart : DigitsApart before (c :: run ++ rest)) :
    Reads before rest (c :: run) (.bad (.ofList (c :: run))) := by
  rcases bad_cases h.run hkind with ⟨hdigit, hlarge⟩ | ⟨hdigit, rfl⟩
  · have hcontinues := continues_digit hdigit
    have hrun := h.run
    have hstop := h.stop
    rw [hcontinues] at hrun hstop
    refine .tooLarge ⟨List.cons_ne_nil c run, List.forall_mem_cons.mpr ⟨hdigit, hrun⟩⟩ hlarge
      (fun d hd => ?_) hstop
    cases hlast : d.isDigit with
    | false => rfl
    | true =>
      have hfirst := hapart d hd c rfl hlast
      rw [hdigit] at hfirst
      cases hfirst
  · exact .stray (unreadable_iff.mpr ⟨hdigit, hkind, h.stop⟩)

end FirstPiece

theorem Cut.skip_blanks {before run rest : List Char} {found : List (Located Lexeme)}
    (hrun : ∀ c ∈ run, isBlank c = true) (h : Cut (before ++ run) rest found) :
    Cut before (run ++ rest) found := by
  induction run generalizing before with
  | nil => rwa [List.append_nil] at h
  | cons c run ih =>
    obtain ⟨hc, hrun⟩ := List.forall_mem_cons.mp hrun
    have hnext : Cut (before ++ [c] ++ run) rest found := by rwa [List.append_assoc]
    change Cut before ([c] ++ (run ++ rest)) found
    exact .skip (.blank hc) (ih hrun hnext)

/-- The scanner cuts a text into gaps and lexemes. -/
theorem cut_lexemesFrom {before : List Char} (text : List Char) (h : DigitsApart before text) :
    Cut before text (lexemesFrom (byteLength before) text) := by
  induction text using pieces_induction generalizing before with
  | nil =>
    rw [lexemesFrom_nil]
    exact .done
  | piece c run rest hpiece ih =>
    have hrest := ih (hpiece.digitsApart before)
    cases hkind : pieceKind c run with
    | gap =>
      rw [hpiece.lexemesFrom_gap hkind]
      rcases gap_cases hkind with hblank | rfl
      · -- a piece of blanks is as many gaps as it has characters
        have hrun := hpiece.run
        rw [continues_blank hblank] at hrun
        exact hrest.skip_blanks (List.forall_mem_cons.mpr ⟨hblank, hrun⟩)
      · exact .skip (skipped_comment_iff.mpr hpiece) hrest
    | token t =>
      rw [hpiece.lexemesFrom_token hkind]
      refine .read (.token (denotes_of_pieceKind hpiece.run hkind) fun d hd => ?_) hrest
      rw [← continues_eq_extendedBy hkind]
      exact hpiece.stop d hd
    | bad =>
      rw [hpiece.lexemesFrom_bad hkind]
      exact .read (hpiece.reads_bad hkind h) hrest

theorem lexemesFrom_blanks {run rest : List Char} (hrun : ∀ c ∈ run, isBlank c = true)
    (hstop : ∀ d ∈ rest.head?, isBlank d = false) (before : List Char) :
    lexemesFrom (byteLength before) (run ++ rest) =
      lexemesFrom (byteLength (before ++ run)) rest := by
  cases run with
  | nil => rw [List.append_nil, List.nil_append]
  | cons c run =>
    obtain ⟨hc, hrun⟩ := List.forall_mem_cons.mp hrun
    have hpiece : IsFirstPiece c run rest := by
      constructor
      · rwa [continues_blank hc]
      · rwa [continues_blank hc]
    exact hpiece.lexemesFrom_gap (pieceKind_blank hc run) before

/-- A blank is skipped, wherever the blanks around it begin and end. -/
theorem lexemesFrom_blank {c : Char} (hc : isBlank c = true) (before rest : List Char) :
    lexemesFrom (byteLength before) ([c] ++ rest) =
      lexemesFrom (byteLength (before ++ [c])) rest := by
  obtain ⟨run, behind, rfl, hrun, hstop⟩ : ∃ run behind, rest = run ++ behind ∧
      (∀ d ∈ run, isBlank d = true) ∧ ∀ d ∈ behind.head?, isBlank d = false :=
    ⟨_, _, List.takeWhile_append_dropWhile.symm, fun d hd => List.mem_takeWhile_imp hd,
      stop_dropWhile isBlank rest⟩
  -- the blanks around `c` are one piece, so both sides are read up to its end
  calc lexemesFrom (byteLength before) (c :: run ++ behind)
      = lexemesFrom (byteLength (before ++ c :: run)) behind :=
        lexemesFrom_blanks (List.forall_mem_cons.mpr ⟨hc, hrun⟩) hstop before
    _ = lexemesFrom (byteLength (before ++ [c] ++ run)) behind := by rw [List.append_cons]
    _ = lexemesFrom (byteLength (before ++ [c])) (run ++ behind) :=
        (lexemesFrom_blanks hrun hstop _).symm

/-- So are any number of blanks. -/
theorem lexemesFrom_skip {run : List Char} (hrun : ∀ c ∈ run, isBlank c = true)
    (before rest : List Char) :
    lexemesFrom (byteLength before) (run ++ rest) =
      lexemesFrom (byteLength (before ++ run)) rest := by
  induction run generalizing before with
  | nil => rw [List.append_nil, List.nil_append]
  | cons c run ih =>
    obtain ⟨hc, hrun⟩ := List.forall_mem_cons.mp hrun
    have hblank := lexemesFrom_blank hc before (run ++ rest)
    rw [ih hrun, List.append_assoc] at hblank
    exact hblank

/-- There is no other way to cut the text. -/
theorem Cut.eq_lexemesFrom {before text : List Char} {found : List (Located Lexeme)}
    (h : Cut before text found) : found = lexemesFrom (byteLength before) text := by
  induction h with
  | done => rw [lexemesFrom_nil]
  | @skip before gap rest found hskipped _ ih =>
    rw [ih]
    cases hskipped with
    | blank hblank => rw [lexemesFrom_blank hblank]
    | comment hbody hstop =>
      have hpiece := skipped_comment_iff.mp (.comment hbody hstop)
      rw [hpiece.lexemesFrom_gap (pieceKind_hash _)]
  | @read before piece rest l found hreads _ ih =>
    rw [ih]
    cases hreads with
    | token hdenotes hstop =>
      obtain ⟨c, run, rfl, hrun, hkind⟩ := hdenotes.pieceKind_eq
      have hpiece : IsFirstPiece c run rest :=
        ⟨hrun, fun d hd => (continues_eq_extendedBy hkind d).trans (hstop d hd)⟩
      rw [hpiece.lexemesFrom_token hkind]
    | @stray c hunreadable =>
      obtain ⟨-, hkind, hstop⟩ := unreadable_iff.mp hunreadable
      have hpiece : IsFirstPiece c [] rest := ⟨by simp, hstop⟩
      rw [hpiece.lexemesFrom_bad hkind]
    | tooLarge hdigits hlarge _ hstop =>
      obtain ⟨c, run, rfl⟩ := List.exists_cons_of_ne_nil hdigits.nonempty
      obtain ⟨hc, hrun⟩ := List.forall_mem_cons.mp hdigits.digits
      have hpiece : IsFirstPiece c run rest := by
        constructor
        · rwa [continues_digit hc]
        · rwa [continues_digit hc]
      rw [hpiece.lexemesFrom_bad]
      rw [pieceKind_digit hc]
      exact numberKind_eq_bad_iff.mpr hlarge

/-- The lexemes of a text are those that its cut finds, and no others. -/
theorem cut_iff {text : List Char} {found : List (Located Lexeme)} :
    Cut [] text found ↔ found = lexemesFrom 0 text := by
  constructor
  · exact Cut.eq_lexemesFrom
  · rintro rfl
    have hapart : DigitsApart [] text := fun c hc => by cases hc
    exact cut_lexemesFrom text hapart

def Lexeme.isToken : Lexeme → Bool
  | token _ => true
  | bad _ => false

def tokenPart? (l : Located Lexeme) : Option (Located Token) :=
  match l.value with
  | .token t => some ⟨t, l.span⟩
  | .bad _ => none

def badPart? (l : Located Lexeme) : Option (Located String) :=
  match l.value with
  | .token _ => none
  | .bad text => some ⟨text, l.span⟩

/-- A scan keeps the tokens and the bad text among the lexemes apart. -/
theorem scan_eq (source : String) :
    scan source = ⟨(lexemesFrom 0 source.toList).filterMap tokenPart?,
      (lexemesFrom 0 source.toList).filterMap badPart?⟩ := by
  have htoken : ∀ p : Located Piece, tokenOf? p = (lexemeOf? p).bind tokenPart? := by
    intro p
    unfold tokenOf? lexemeOf?
    cases p.value.kind <;> rfl
  have hbad : ∀ p : Located Piece, badTextOf? p = (lexemeOf? p).bind badPart? := by
    intro p
    unfold badTextOf? lexemeOf?
    cases p.value.kind <;> rfl
  simp only [scan, placedPieces, lexemesFrom, List.filterMap_filterMap, ← htoken, ← hbad]

theorem tokenParts_map_token (tokens : List (Located Token)) :
    (tokens.map (·.map Lexeme.token)).filterMap tokenPart? = tokens := by
  simp [List.filterMap_map, Function.comp_def, tokenPart?, Located.map]

theorem badParts_map_token (tokens : List (Located Token)) :
    (tokens.map (·.map Lexeme.token)).filterMap badPart? = [] := by
  simp [badPart?, Located.map]

/-- A text that is cut into tokens has no bad text. -/
theorem scan_of_cut {source : String} {tokens : List (Located Token)}
    (h : Cut [] source.toList (tokens.map (·.map Lexeme.token))) : scan source = ⟨tokens, []⟩ := by
  rw [scan_eq, ← cut_iff.mp h, tokenParts_map_token, badParts_map_token]

section Merging

variable {α : Type} {le : α → α → Bool}

theorem merge_cons_left {a : α} {as bs : List α} (h : ∀ b ∈ bs, le a b = true) :
    (a :: as).merge bs le = a :: as.merge bs le := by
  cases bs with
  | nil => rw [List.merge_right, List.merge_right]
  | cons b bs => exact List.cons_merge_cons_pos le as bs (h b List.mem_cons_self)

theorem merge_cons_right {b : α} {as bs : List α} (h : ∀ a ∈ as, le a b = false) :
    as.merge (b :: bs) le = b :: as.merge bs le := by
  cases as with
  | nil => rw [List.nil_merge, List.nil_merge]
  | cons a as => exact List.cons_merge_cons_neg le as bs (by simp [h a List.mem_cons_self])

/-- A list in order is put together again from the parts it is split into. -/
theorem merge_filter {p : α → Bool} {xs : List α}
    (h : xs.Pairwise fun a b => le a b = true ∧ le b a = false) :
    (xs.filter p).merge (xs.filter (! p ·)) le = xs := by
  induction xs with
  | nil => exact List.nil_merge []
  | cons x xs ih =>
    obtain ⟨hx, hxs⟩ := List.pairwise_cons.mp h
    cases hp : p x with
    | true =>
      rw [List.filter_cons_of_pos hp, List.filter_cons_of_neg (by simp [hp]), merge_cons_left,
        ih hxs]
      exact fun b hb => (hx b (List.mem_filter.mp hb).1).1
    | false =>
      rw [List.filter_cons_of_neg (by simp [hp]), List.filter_cons_of_pos (by simp [hp]),
        merge_cons_right, ih hxs]
      exact fun a ha => (hx a (List.mem_filter.mp ha).1).2

end Merging

/-- The tokens among lexemes are the lexemes that are tokens. -/
theorem map_tokenParts (found : List (Located Lexeme)) :
    (found.filterMap tokenPart?).map (·.map Lexeme.token) = found.filter (·.value.isToken) := by
  rw [List.map_filterMap, ← List.filterMap_eq_filter]
  refine congrArg (List.filterMap · found) (funext fun l => ?_)
  obtain ⟨t | text, span⟩ := l <;> rfl

theorem map_badParts (found : List (Located Lexeme)) :
    (found.filterMap badPart?).map (·.map Lexeme.bad) = found.filter (! ·.value.isToken) := by
  rw [List.map_filterMap, ← List.filterMap_eq_filter]
  refine congrArg (List.filterMap · found) (funext fun l => ?_)
  obtain ⟨t | text, span⟩ := l <;> rfl

/-- Lexemes that stand one behind the other are put together again from their two kinds. -/
theorem lexemes_of_parts {found : List (Located Lexeme)}
    (h : found.Pairwise fun l m => l.span.start < m.span.start) :
    Scan.lexemes ⟨found.filterMap tokenPart?, found.filterMap badPart?⟩ = found := by
  rw [Scan.lexemes, map_tokenParts, map_badParts]
  refine merge_filter (h.imp fun hlt => ⟨?_, ?_⟩)
  · exact decide_eq_true (Nat.le_of_lt hlt)
  · exact decide_eq_false (Nat.not_le_of_lt hlt)

theorem scan_lexemes (source : String) : (scan source).lexemes = lexemesFrom 0 source.toList := by
  have hcut : Cut [] source.toList _ := cut_iff.mpr rfl
  rw [scan_eq, lexemes_of_parts (hcut.pairwise.imp And.left)]

/-- A scan finds what the text is cut into. -/
theorem cut_scan (source : String) : Cut [] source.toList (scan source).lexemes :=
  cut_iff.mpr (scan_lexemes source)

theorem isCharBoundary_of_mem_tokens {source : String} {t : Located Token}
    (h : t ∈ (scan source).tokens) : IsCharBoundary source t.span.start := by
  have hmem : t.map Lexeme.token ∈ (scan source).lexemes :=
    List.mem_merge.mpr (.inl (List.mem_map_of_mem h))
  exact ((cut_scan source).isCharBoundary hmem).1

theorem isCharBoundary_of_mem_badText {source : String} {bad : Located String}
    (h : bad ∈ (scan source).badText) : IsCharBoundary source bad.span.start := by
  have hmem : bad.map Lexeme.bad ∈ (scan source).lexemes :=
    List.mem_merge.mpr (.inr (List.mem_map_of_mem h))
  exact ((cut_scan source).isCharBoundary hmem).1

/-- A scan accounts for the whole source text: its tokens and its bad text are what the text is cut
into, and the only way to cut it. They stand one behind the other on boundaries of characters. -/
theorem scan_accounts (source : String) :
    (∀ found, Cut [] source.toList found ↔ found = (scan source).lexemes) ∧
      (scan source).lexemes.Pairwise
        (fun l m => l.span.start < m.span.start ∧ l.span.stop ≤ m.span.start) ∧
      ∀ l ∈ (scan source).lexemes,
        l.span.start < l.span.stop ∧ l.span.stop ≤ source.utf8ByteSize ∧
          IsCharBoundary source l.span.start ∧ IsCharBoundary source l.span.stop := by
  have hcut : ∀ found, Cut [] source.toList found ↔ found = (scan source).lexemes := by
    intro found
    rw [scan_lexemes]
    exact cut_iff
  have hlexemes := cut_scan source
  refine ⟨hcut, hlexemes.pairwise, fun l hl => ?_⟩
  obtain ⟨hstart, hstop⟩ := hlexemes.isCharBoundary hl
  exact ⟨hlexemes.start_lt_stop hl, hstop.le, hstart, hstop⟩

/-- Words that begin like keywords, a sign without a name, and the least number that is too
large. -/
example : scan "loops% looped#\né 18446744073709551616" =
    ⟨[⟨.keyword .loops, ⟨0, 5⟩⟩, ⟨.ident "looped", ⟨7, 13⟩⟩],
      [⟨"%", ⟨5, 6⟩⟩, ⟨"é", ⟨15, 17⟩⟩, ⟨"18446744073709551616", ⟨18, 38⟩⟩]⟩ := by
  decide +kernel

end Source

end TensorLoops
