namespace TensorLoops.Text

/-- Where in a terminal sequence a reader stands. -/
inductive Sequence where
  | outside
  /-- After the escape character. -/
  | escape
  /-- After an escape character and at least one of the characters from the space to the slash. -/
  | intermediate
  /-- A control sequence, up to a character from `@` to `~`. -/
  | control
  /-- A system command, up to the bell. -/
  | command
  /-- At the start of a device control. -/
  | device
  /-- Among the numbers of a device control. -/
  | deviceNumbers
  /-- After the numbers of a device control, among the characters from the space to the slash. -/
  | deviceIntermediate
  /-- The body of a device control, or another string that is not for the reader. -/
  | string
  deriving DecidableEq, Repr

/-- Tabs, line feeds, form feeds and carriage returns. -/
def isBreak (c : Char) : Bool := c == '\t' || c == '\n' || c == '\x0c' || c == '\r'

/-- Characters that show outside sequences. -/
def isShown (c : Char) : Bool := isBreak c || (0x20 ≤ c.toNat && c.toNat != 0x7f)

def isBetween (first last c : Char) : Bool := first ≤ c && c ≤ last

/-- Whether the bytes of a character hold the one that terminates a string. In a longer character the
bytes behind it show nothing. -/
def terminatesString (c : Char) : Bool := (String.utf8EncodeChar c).contains 0x9c

namespace Sequence

/-- The place after one more character. An escape character begins a sequence wherever it stands, and a
cancel character ends one. -/
def next (s : Sequence) (c : Char) : Sequence :=
  if c == '\x1b' then escape
  else if c == '\x18' || c == '\x1a' then outside
  else
    match s with
    | outside => outside
    | escape =>
      if c == '[' then control
      else if c == ']' then command
      else if c == 'P' then device
      else if c == 'X' || c == '^' || c == '_' then string
      else if isBetween ' ' '/' c then intermediate
      else if isBetween '0' '~' c then outside
      else escape
    | intermediate => if isBetween '0' '~' c then outside else intermediate
    | control => if isBetween '@' '~' c then outside else control
    | command => if c == '\x07' then outside else command
    | device =>
      if isBetween ' ' '/' c then deviceIntermediate
      else if isBetween '0' '?' c then deviceNumbers
      else if isBetween '@' '~' c then string
      else device
    | deviceNumbers =>
      if isBetween ' ' '/' c then deviceIntermediate
      else if isBetween '<' '~' c then string
      else deviceNumbers
    | deviceIntermediate => if isBetween '0' '~' c then string else deviceIntermediate
    | string => if terminatesString c then outside else string

/-- Breaks show in short sequences too. -/
def shows (s : Sequence) (c : Char) : Bool :=
  match s with
  | outside => isShown c
  | escape | intermediate | control => isBreak c
  | command | device | deviceNumbers | deviceIntermediate | string => false

/-- What shows from a place on. A break within a sequence lets the text behind it show, up to the next
character that does not; there the sequence goes on, unless a character beyond ASCII was between. -/
def strip (s : Sequence) (interrupted : Bool) : List Char → List Char
  | [] => []
  | c :: rest =>
    if interrupted && isShown c then
      c :: strip (if c.toNat < 0x80 then s else outside) true rest
    else if s.shows c then c :: (s.next c).strip true rest
    else (s.next c).strip false rest

end Sequence

/-- A text without control characters and terminal sequences. -/
def withoutControls (s : String) : String := .ofList (Sequence.outside.strip false s.toList)

theorem Sequence.strip_shown (interrupted : Bool) {s : List Char} (h : ∀ c ∈ s, isShown c) :
    outside.strip interrupted s = s := by
  induction s generalizing interrupted with
  | nil => rfl
  | cons c rest ih =>
    have shown : isShown c = true := h c (by simp)
    have tail := ih true fun d hd => h d (by simp [hd])
    have stays : outside.next c = outside := by
      have noEscape : c ≠ '\x1b' := by rintro rfl; revert shown; decide
      have cancel : (c == '\x18' || c == '\x1a') = false := by
        have first : c ≠ '\x18' := by rintro rfl; revert shown; decide
        have second : c ≠ '\x1a' := by rintro rfl; revert shown; decide
        simp [first, second]
      simp [next, noEscape, cancel]
    simp [strip, shows, shown, stays, tail]

/-- A text that shows as it is stays as it is. -/
theorem withoutControls_eq_self {s : String} (h : ∀ c ∈ s.toList, isShown c) :
    withoutControls s = s := by
  simp [withoutControls, Sequence.strip_shown false h]

theorem Sequence.isShown_of_shows {s : Sequence} {c : Char} (h : s.shows c) : isShown c := by
  cases s with
  | outside => exact h
  | escape | intermediate | control =>
    have hbreak : isBreak c = true := h
    simp [isShown, hbreak]
  | command | device | deviceNumbers | deviceIntermediate | string => cases h

theorem Sequence.isShown_of_mem_strip {s : Sequence} {interrupted : Bool} {text : List Char} :
    ∀ c ∈ s.strip interrupted text, isShown c := by
  induction text generalizing s interrupted with
  | nil => exact fun _ hc => absurd hc List.not_mem_nil
  | cons d rest ih =>
    unfold strip
    split
    · rename_i hshown
      exact List.forall_mem_cons.mpr ⟨(Bool.and_eq_true_iff.mp hshown).2, ih⟩
    · split
      · rename_i hshows
        exact List.forall_mem_cons.mpr ⟨isShown_of_shows hshows, ih⟩
      · exact ih

/-- Whatever the text, nothing is left that would steer a terminal. -/
theorem isShown_of_mem_withoutControls (s : String) :
    ∀ c ∈ (withoutControls s).toList, isShown c := by
  rw [withoutControls, String.toList_ofList]
  exact Sequence.isShown_of_mem_strip

/-- A color, a title that a line break interrupts, and a device control with a long character. -/
example : withoutControls "\x1b[1ma\x07\x1b]0\n\x07b\x1bP1\u009cq\u071cc" = "abc" := by
  decide +kernel

theorem withoutControls_withoutControls (s : String) :
    withoutControls (withoutControls s) = withoutControls s :=
  withoutControls_eq_self (isShown_of_mem_withoutControls s)

end TensorLoops.Text
