import Mathlib.Data.List.Basic
import TensorLoops.Proofs.Spelling
import TensorLoops.Text.Json

namespace TensorLoops.Text.Json

/-- Reads something at the front of a text and leaves the rest. -/
abbrev Reader (α : Type) := List Char → Option (α × List Char)

def skipBlanks (text : List Char) : List Char := text.dropWhile Source.isBlank

def hexDigit? (c : Char) : Option Nat :=
  if c.isDigit then some (c.toNat - '0'.toNat)
  else if 'a' ≤ c ∧ c ≤ 'f' then some (c.toNat - 'a'.toNat + 10)
  else if 'A' ≤ c ∧ c ≤ 'F' then some (c.toNat - 'A'.toNat + 10)
  else none

/-- The number that is written with four hexadecimal digits. -/
def codeUnit? (a b c d : Char) : Option Nat :=
  match hexDigit? a, hexDigit? b, hexDigit? c, hexDigit? d with
  | some p, some q, some r, some s => some (((p * 16 + q) * 16 + r) * 16 + s)
  | _, _, _, _ => none

/-- What a letter or a sign stands for behind a backslash. -/
def unescape? : Char → Option Char
  | '"' => some '"'
  | '\\' => some '\\'
  | '/' => some '/'
  | 'b' => some '\x08'
  | 'f' => some '\x0c'
  | 'n' => some '\n'
  | 'r' => some '\r'
  | 't' => some '\t'
  | _ => none

/-- The character of a code unit. A surrogate needs the other half of its pair behind it. -/
def character (unit : Nat) (rest : List Char) : Option (Char × List Char) :=
  if unit < 0xD800 ∨ 0xE000 ≤ unit then some (.ofNat unit, rest)
  else
    match rest with
    | '\\' :: 'u' :: a :: b :: c :: d :: rest =>
      match codeUnit? a b c d with
      | some low =>
        if unit < 0xDC00 ∧ 0xDC00 ≤ low ∧ low < 0xE000 then
          some (.ofNat (0x10000 + (unit - 0xD800) * 0x400 + (low - 0xDC00)), rest)
        else none
      | none => none
    | _ => none

/-- Reads what stands behind a backslash. -/
def escaped : Reader Char
  | 'u' :: a :: b :: c :: d :: rest =>
    match codeUnit? a b c d with
    | some unit => character unit rest
    | none => none
  | c :: rest =>
    match unescape? c with
    | some c => some (c, rest)
    | none => none
  | [] => none

/-- Reads the characters of a string up to the closing quote. -/
def characters (text : List Char) : Option (List Char × List Char) :=
  match text with
  | [] => none
  | '"' :: rest => some ([], rest)
  | '\\' :: behind =>
    match escaped behind with
    | some (c, rest) =>
      if rest.length < behind.length then
        match characters rest with
        | some (cs, rest) => some (c :: cs, rest)
        | none => none
      else none
    | none => none
  | c :: rest =>
    if c.toNat < 32 then none
    else
      match characters rest with
      | some (cs, rest) => some (c :: cs, rest)
      | none => none
termination_by text.length

/-- Digits, without a zero in front of others. -/
def natural : Reader Nat
  | '0' :: rest => some (0, rest)
  | text =>
    if (text.takeWhile Char.isDigit).isEmpty then none
    else some (Nat.ofDigitChars 10 (text.takeWhile Char.isDigit) 0, text.dropWhile Char.isDigit)

/-- Reads what is neither an array nor an object. -/
def scalar : Reader Json
  | 'n' :: 'u' :: 'l' :: 'l' :: rest => some (null, rest)
  | 't' :: 'r' :: 'u' :: 'e' :: rest => some (bool true, rest)
  | 'f' :: 'a' :: 'l' :: 's' :: 'e' :: rest => some (bool false, rest)
  | '"' :: rest =>
    match characters rest with
    | some (cs, rest) => some (string (.ofList cs), rest)
    | none => none
  | '-' :: rest =>
    match natural rest with
    | some (n, rest) => some (number (-n), rest)
    | none => none
  | text =>
    match natural text with
    | some (n, rest) => some (number n, rest)
    | none => none

section Lists

variable {α : Type}

/-- Reads at least one element, with commas in between, and the closing sign. -/
def elements (r : Reader α) (closing : Char) (text : List Char) : Option (List α × List Char) :=
  match r (skipBlanks text) with
  | none => none
  | some (a, rest) =>
    match skipBlanks rest with
    | [] => none
    | c :: rest =>
      if c = closing then some ([a], rest)
      else if c = ',' ∧ rest.length < text.length then
        match elements r closing rest with
        | some (as, rest) => some (a :: as, rest)
        | none => none
      else none
termination_by text.length

def list (r : Reader α) (closing : Char) : Reader (List α) := fun text =>
  match skipBlanks text with
  | [] => none
  | c :: rest => if c = closing then some ([], rest) else elements r closing text

/-- Reads a name and, behind a colon, what `r` reads. -/
def field (r : Reader α) : Reader (String × α)
  | '"' :: rest =>
    match characters rest with
    | none => none
    | some (name, rest) =>
      match skipBlanks rest with
      | ':' :: rest =>
        match r (skipBlanks rest) with
        | some (a, rest) => some ((.ofList name, a), rest)
        | none => none
      | _ => none
  | _ => none

end Lists

/-- Reads a document whose arrays and objects are nested at most to a depth. -/
def value : Nat → Reader Json
  | depth + 1, '[' :: rest =>
    match list (value depth) ']' rest with
    | some (items, rest) => some (array items, rest)
    | none => none
  | depth + 1, '\x7b' :: rest =>
    match list (field (value depth)) '\x7d' rest with
    | some (fields, rest) => some (object fields, rest)
    | none => none
  | _, text => scalar text

/-- The document that a text holds. Numbers with a fraction or an exponent are not read. -/
def read? (depth : Nat) (text : String) : Option Json :=
  match value depth (skipBlanks text.toList) with
  | some (j, rest) => if (skipBlanks rest).isEmpty then some j else none
  | none => none

section Characters

variable {c : Char} {cs rest rest' : List Char}

theorem hexDigit?_digitChar : ∀ n < 16, hexDigit? (Nat.digitChar n) = some n := by decide

theorem escaped_control (hc : c.toNat < 32) (rest : List Char) :
    escaped ((controlEscape c).tail ++ rest) = some (c, rest) := by
  have hhigh := hexDigit?_digitChar (c.toNat / 16) (by omega)
  have hlow := hexDigit?_digitChar (c.toNat % 16) (by omega)
  have hzero : hexDigit? '0' = some 0 := rfl
  have hunit : codeUnit? '0' '0' (Nat.digitChar (c.toNat / 16)) (Nat.digitChar (c.toNat % 16)) =
      some c.toNat := by
    unfold codeUnit?
    rw [hhigh, hlow, hzero]
    exact congrArg some (by omega)
  change escaped ('u' :: '0' :: '0' :: Nat.digitChar (c.toNat / 16) ::
    Nat.digitChar (c.toNat % 16) :: rest) = some (c, rest)
  rw [escaped, hunit]
  dsimp only
  unfold character
  rw [if_pos (.inl (by omega)), Char.ofNat_toNat]

/-- A backslash and what is behind it are read as one character. -/
theorem characters_backslash {behind : List Char} (hescaped : escaped behind = some (c, rest))
    (hlt : rest.length < behind.length) (h : characters rest = some (cs, rest')) :
    characters ('\\' :: behind) = some (c :: cs, rest') := by
  rw [characters, hescaped]
  dsimp only
  rw [if_pos hlt, h]

/-- An escaped character is read as that character. -/
theorem characters_escape (c : Char) (h : characters rest = some (cs, rest')) :
    characters (escape c ++ rest) = some (c :: cs, rest') := by
  unfold escape
  split
  case h_8 hquote hbackslash _ _ _ _ _ =>
    split
    · rename_i hc
      have hlt : rest.length < ((controlEscape c).tail ++ rest).length := by
        simp only [controlEscape, List.tail_cons, List.cons_append, List.nil_append,
          List.length_cons]
        omega
      exact characters_backslash (escaped_control hc rest) hlt h
    · rename_i hc
      rw [List.singleton_append, characters, if_neg hc, h]
      · exact hquote
      · exact hbackslash
  all_goals exact characters_backslash rfl (Nat.lt_succ_self _) h

theorem characters_flatMap (cs rest : List Char) :
    characters (cs.flatMap escape ++ '"' :: rest) = some (cs, rest) := by
  induction cs with
  | nil => rw [List.flatMap_nil, List.nil_append, characters]
  | cons c cs ih =>
    rw [List.flatMap_cons, List.append_assoc]
    exact characters_escape c ih

theorem characters_stringText (s : String) (rest : List Char) :
    ∃ behind, stringText s ++ rest = '"' :: behind ∧ characters behind = some (s.toList, rest) := by
  refine ⟨s.toList.flatMap escape ++ '"' :: rest, ?_, characters_flatMap _ _⟩
  simp [stringText]

end Characters

/-- The text does not go on with another digit. -/
def Ends (rest : List Char) : Prop := ∀ d ∈ rest.head?, d.isDigit = false

theorem head?_toDigits {n : Nat} (hn : 0 < n) : (Nat.toDigits 10 n).head? ≠ some '0' := by
  induction n using Nat.strongRecOn with
  | ind n ih =>
    by_cases hlt : n < 10
    · rw [Nat.toDigits_of_lt_base hlt]
      have hdigits : ∀ m < 10, 0 < m → [Nat.digitChar m].head? ≠ some '0' := by decide
      exact hdigits n hlt hn
    · rw [Nat.toDigits_of_base_le (by decide) (by omega), List.head?_append_of_ne_nil _
        Nat.toDigits_ne_nil]
      exact ih (n / 10) (by omega) (by omega)

theorem natural_repr (n : Nat) {rest : List Char} (h : Ends rest) :
    natural (n.repr.toList ++ rest) = some (n, rest) := by
  rcases Nat.eq_zero_or_pos n with rfl | hn
  · rfl
  · have hhead := head?_toDigits hn
    rw [← Nat.toList_repr] at hhead
    have hdigits : ∀ c ∈ n.repr.toList, c.isDigit = true := fun _ => Source.isDigit_of_mem_repr
    have hvalue : Nat.ofDigitChars 10 n.repr.toList 0 = n := by
      rw [Nat.toList_repr, Nat.ofDigitChars_ten_toDigits]
    obtain ⟨c, cs, hcons⟩ := List.exists_cons_of_ne_nil (l := n.repr.toList) (by simp)
    have htake : (n.repr.toList ++ rest).takeWhile Char.isDigit = n.repr.toList := by
      rw [List.takeWhile_append_of_pos hdigits]
      cases rest with
      | nil => exact List.append_nil _
      | cons d rest => rw [List.takeWhile_cons_of_neg (by simp [h d rfl]), List.append_nil]
    have hdrop : (n.repr.toList ++ rest).dropWhile Char.isDigit = rest := by
      rw [List.dropWhile_append_of_pos hdigits]
      cases rest with
      | nil => rfl
      | cons d rest => exact List.dropWhile_cons_of_neg (by simp [h d rfl])
    unfold natural
    split
    · rename_i heq
      rw [hcons, List.cons_append] at heq
      rw [hcons, (List.cons.inj heq).1] at hhead
      exact absurd rfl hhead
    · rw [htake, hdrop, hvalue, if_neg (by simp)]

section Given

variable {α : Type}

/-- From the text `r` reads `a`, whatever comes behind it. The text does not begin with a blank, nor
with the closing sign of an array or an object. -/
structure Gives (r : Reader α) (text : List Char) (a : α) : Prop where
  first : ∃ c cs, text = c :: cs ∧ Source.isBlank c = false ∧ c ≠ ']' ∧ c ≠ '\x7d'
  reads : ∀ rest, Ends rest → r (text ++ rest) = some (a, rest)

variable {r : Reader α} {text : List Char} {a : α}

theorem skipBlanks_newLine (depth : Nat) (text : List Char) :
    skipBlanks (newLine depth ++ text) = skipBlanks text := by
  refine List.dropWhile_append_of_pos fun c hc => ?_
  rcases List.mem_cons.mp hc with rfl | hc
  · rfl
  · rw [List.eq_of_mem_replicate hc]
    rfl

theorem skipBlanks_cons {c : Char} (hc : Source.isBlank c = false) (text : List Char) :
    skipBlanks (c :: text) = c :: text := List.dropWhile_cons_of_neg (by simp [hc])

theorem Gives.skipBlanks_append (h : Gives r text a) (rest : List Char) :
    skipBlanks (text ++ rest) = text ++ rest := by
  obtain ⟨c, cs, rfl, hc, -⟩ := h.first
  exact skipBlanks_cons hc _

variable {closing : Char} {depth outer : Nat} {as : List α} {t : α → List Char}

/-- Parts that are written below each other, with a comma behind each but the last. -/
def lines (depth : Nat) (t : α → List Char) (a : α) (as : List α) : List Char :=
  newLine depth ++ t a ++ (as.map t).flatMap fun part => ',' :: newLine depth ++ part

theorem elements_lines (hclosing : closing = ']' ∨ closing = '\x7d')
    (h : ∀ b ∈ a :: as, Gives r (t b) b) (rest : List Char) :
    elements r closing (lines depth t a as ++ newLine outer ++ closing :: rest) =
      some (a :: as, rest) := by
  have hblank : Source.isBlank closing = false := by rcases hclosing with rfl | rfl <;> rfl
  have hcomma : ',' ≠ closing := by rcases hclosing with rfl | rfl <;> decide
  induction as generalizing a with
  | nil =>
    have ha := h a List.mem_cons_self
    have htext : lines depth t a [] ++ newLine outer ++ closing :: rest =
        newLine depth ++ (t a ++ (newLine outer ++ closing :: rest)) := by
      simp [lines]
    have hends : Ends (newLine outer ++ closing :: rest) := fun d hd => by cases hd; rfl
    rw [htext, elements, skipBlanks_newLine, ha.skipBlanks_append, ha.reads _ hends]
    dsimp only
    rw [skipBlanks_newLine, skipBlanks_cons hblank]
    dsimp only
    rw [if_pos rfl]
  | cons b as ih =>
    obtain ⟨ha, hrest⟩ := List.forall_mem_cons.mp h
    have htext : lines depth t a (b :: as) ++ newLine outer ++ closing :: rest =
        newLine depth ++
          (t a ++ ',' :: (lines depth t b as ++ newLine outer ++ closing :: rest)) := by
      simp [lines]
    have hends : Ends (',' :: (lines depth t b as ++ newLine outer ++ closing :: rest)) :=
      fun d hd => by cases hd; rfl
    rw [htext, elements, skipBlanks_newLine, ha.skipBlanks_append, ha.reads _ hends]
    dsimp only
    rw [skipBlanks_cons rfl]
    dsimp only
    have hshorter : (lines depth t b as ++ newLine outer ++ closing :: rest).length <
        (newLine depth ++ (t a ++
          ',' :: (lines depth t b as ++ newLine outer ++ closing :: rest))).length := by
      simp only [List.length_append, List.length_cons]
      omega
    rw [if_neg hcomma, if_pos ⟨rfl, hshorter⟩, ih hrest]

/-- What stands between the signs of an array or of an object. -/
theorem list_block (opening : Char) (hclosing : closing = ']' ∨ closing = '\x7d')
    (h : ∀ b ∈ as, Gives r (t b) b) (rest : List Char) :
    ∃ behind, block opening closing outer (as.map t) ++ rest = opening :: behind ∧
      list r closing behind = some (as, rest) := by
  cases as with
  | nil =>
    have hblank : Source.isBlank closing = false := by rcases hclosing with rfl | rfl <;> rfl
    refine ⟨closing :: rest, rfl, ?_⟩
    rw [list, skipBlanks_cons hblank]
    dsimp only
    rw [if_pos rfl]
  | cons a as =>
    refine ⟨lines (outer + 1) t a as ++ newLine outer ++ closing :: rest,
      by simp [block, lines], ?_⟩
    obtain ⟨c, cs, hfirst, hblank, hbracket, hbrace⟩ := (h a List.mem_cons_self).first
    have hne : c ≠ closing := by rcases hclosing with rfl | rfl <;> assumption
    have hskip : ∃ behind,
        skipBlanks (lines (outer + 1) t a as ++ newLine outer ++ closing :: rest) =
          c :: behind := by
      unfold lines
      simp only [List.append_assoc]
      rw [skipBlanks_newLine, hfirst, List.cons_append, skipBlanks_cons hblank]
      exact ⟨_, rfl⟩
    obtain ⟨behind, hskip⟩ := hskip
    rw [list, hskip]
    dsimp only
    rw [if_neg hne]
    exact elements_lines hclosing h rest

/-- A field is its name, a colon and what it holds. -/
theorem Gives.field (name : String) (h : Gives r text a) :
    Gives (field r) (stringText name ++ ": ".toList ++ text) (name, a) := by
  constructor
  · exact ⟨'"', name.toList.flatMap escape ++ ['"'] ++ ": ".toList ++ text, rfl, rfl, by decide,
      by decide⟩
  · intro rest hends
    obtain ⟨behind, htext, hname⟩ := characters_stringText name (": ".toList ++ text ++ rest)
    have hcolon : skipBlanks (": ".toList ++ text ++ rest) = ':' :: ' ' :: (text ++ rest) :=
      skipBlanks_cons rfl _
    have hspace : skipBlanks (' ' :: (text ++ rest)) = text ++ rest :=
      (List.dropWhile_cons_of_pos rfl).trans (h.skipBlanks_append rest)
    rw [List.append_assoc, List.append_assoc, ← List.append_assoc ": ".toList, htext]
    simp only [Json.field, hname, hcolon, hspace, h.reads rest hends, String.ofList_toList]

end Given

section Documents

variable {depth level : Nat} {text : List Char} {j : Json}

theorem itemTexts_eq (level : Nat) (items : List Json) :
    itemTexts level items = items.map (textAt level) := by
  induction items with
  | nil => rw [itemTexts, List.map_nil]
  | cons item items ih => rw [itemTexts, ih, List.map_cons]

theorem fieldTexts_eq (level : Nat) (fields : List (String × Json)) :
    fieldTexts level fields =
      fields.map fun x => stringText x.1 ++ ": ".toList ++ textAt level x.2 := by
  induction fields with
  | nil => rw [fieldTexts, List.map_nil]
  | cons x fields ih =>
    obtain ⟨key, value⟩ := x
    rw [fieldTexts, ih, List.map_cons]

/-- A character that can begin neither an array nor an object, nor end one. -/
def isPlain (c : Char) : Bool :=
  !Source.isBlank c && c != '[' && c != ']' && c != '\x7b' && c != '\x7d'

theorem isPlain_of_isDigit {c : Char} (h : c.isDigit = true) : isPlain c = true := by
  have hdigits : ∀ n < 58, 48 ≤ n → isPlain (Char.ofNat n) = true := by decide
  obtain ⟨hlow, hhigh⟩ := Char.isDigit_iff_toNat.mp h
  rw [← Char.ofNat_toNat c]
  exact hdigits c.toNat (Nat.lt_succ_of_le hhigh) hlow

/-- What is neither an array nor an object is read at any depth. -/
theorem gives_of_scalar (c : Char) (cs : List Char) (hc : isPlain c = true)
    (h : ∀ rest, Ends rest → scalar (c :: cs ++ rest) = some (j, rest)) (depth : Nat) :
    Gives (value depth) (c :: cs) j := by
  simp only [isPlain, Bool.and_eq_true, Bool.not_eq_true', bne_iff_ne] at hc
  obtain ⟨⟨⟨⟨hblank, hopenBracket⟩, hbracket⟩, hopenBrace⟩, hbrace⟩ := hc
  refine ⟨⟨c, cs, rfl, hblank, hbracket, hbrace⟩, fun rest hends => ?_⟩
  rw [← h rest hends]
  unfold value
  split
  · rename_i heq
    exact absurd (List.cons.inj heq).1 hopenBracket
  · rename_i heq
    exact absurd (List.cons.inj heq).1 hopenBrace
  · rfl

variable (depth level)

theorem gives_null : Gives (value depth) (textAt level null) null := by
  rw [textAt]
  exact gives_of_scalar 'n' "ull".toList rfl (fun _ _ => rfl) depth

theorem gives_bool (b : Bool) : Gives (value depth) (textAt level (bool b)) (bool b) := by
  cases b with
  | true =>
    rw [textAt]
    exact gives_of_scalar 't' "rue".toList rfl (fun _ _ => rfl) depth
  | false =>
    rw [textAt]
    exact gives_of_scalar 'f' "alse".toList rfl (fun _ _ => rfl) depth

theorem gives_string (s : String) : Gives (value depth) (textAt level (string s)) (string s) := by
  rw [textAt]
  refine gives_of_scalar '"' _ rfl (fun rest _ => ?_) depth
  obtain ⟨behind, htext, hcharacters⟩ := characters_stringText s rest
  have hscalar : scalar (stringText s ++ rest) = some (string s, rest) := by
    rw [htext, scalar, hcharacters]
    dsimp only
    rw [String.ofList_toList]
  exact hscalar

theorem gives_number (n : Int) : Gives (value depth) (textAt level (number n)) (number n) := by
  rw [textAt, integer]
  split
  · rename_i hn
    rw [String.toList_append]
    refine gives_of_scalar '-' _ rfl (fun rest hends => ?_) depth
    have hscalar : scalar ('-' :: (n.natAbs.repr.toList ++ rest)) = some (number n, rest) := by
      rw [scalar, natural_repr _ hends]
      dsimp only
      rw [Int.ofNat_natAbs_of_nonpos (Int.le_of_lt hn), Int.neg_neg]
    exact hscalar
  · rename_i hn
    obtain ⟨c, cs, hcons⟩ := List.exists_cons_of_ne_nil (l := n.natAbs.repr.toList) (by simp)
    have hdigit : c.isDigit = true := Source.isDigit_of_mem_repr (hcons ▸ List.mem_cons_self)
    rw [hcons]
    refine gives_of_scalar c cs (isPlain_of_isDigit hdigit) (fun rest hends => ?_) depth
    have hnatural := natural_repr n.natAbs hends
    rw [hcons] at hnatural
    unfold scalar
    split
    case h_6 =>
      rw [hnatural]
      dsimp only
      rw [Int.natAbs_of_nonneg (Int.not_lt.mp hn)]
    all_goals
      rename_i heq
      rw [(List.cons.inj heq).1] at hdigit
      cases hdigit

theorem gives_array {items : List Json}
    (h : ∀ item ∈ items, Gives (value depth) (textAt (level + 1) item) item) :
    Gives (value (depth + 1)) (textAt level (array items)) (array items) := by
  rw [textAt, itemTexts_eq]
  constructor
  · cases items with
    | nil => exact ⟨'[', [']'], rfl, rfl, by decide, by decide⟩
    | cons item items => exact ⟨'[', _, rfl, rfl, by decide, by decide⟩
  · intro rest _
    obtain ⟨behind, htext, hlist⟩ := list_block '[' (.inl rfl) h rest
    rw [htext, value, hlist]

theorem gives_object {fields : List (String × Json)}
    (h : ∀ x ∈ fields, Gives (value depth) (textAt (level + 1) x.2) x.2) :
    Gives (value (depth + 1)) (textAt level (object fields)) (object fields) := by
  rw [textAt, fieldTexts_eq]
  have hfields : ∀ x ∈ fields, Gives (field (value depth))
      (stringText x.1 ++ ": ".toList ++ textAt (level + 1) x.2) x := fun x hx => (h x hx).field x.1
  constructor
  · cases fields with
    | nil => exact ⟨'\x7b', ['\x7d'], rfl, rfl, by decide, by decide⟩
    | cons x fields => exact ⟨'\x7b', _, rfl, rfl, by decide, by decide⟩
  · intro rest _
    obtain ⟨behind, htext, hlist⟩ := list_block '\x7b' (.inr rfl) hfields rest
    rw [htext, value, hlist]

end Documents

/-- The text of a document is read back. -/
theorem read?_text {depth : Nat} {j : Json} (h : Gives (value depth) (textAt 0 j) j) :
    read? depth j.text = some j := by
  have hvalue := h.reads [] fun _ hd => nomatch hd
  have hskip := h.skipBlanks_append []
  rw [List.append_nil] at hvalue hskip
  rw [read?, text, String.toList_ofList, hskip, hvalue]
  rfl

/-- Blanks, escapes, and a character that is given by its surrogates. -/
example : (read? 3 " \x7b \"a\\u00e9\\uD83D\\ude00\\/\" : [ -7,\n[ ] , true ] \x7d ").map text =
    some "\x7b\n  \"aé😀/\": [\n    -7,\n    [],\n    true\n  ]\n\x7d" := by
  decide +kernel

end TensorLoops.Text.Json
