import TensorLoops.Proofs.Rendering

namespace TensorLoops

namespace Source

def lineFeed : UInt8 := 10

/-- The bytes of a source text. -/
def bytes (source : String) : List UInt8 := source.toUTF8.data.toList

/-- The number of line feeds in front of an offset. -/
def lineFeeds (source : String) (offset : Nat) : Nat :=
  ((bytes source).take offset).count lineFeed

/-- At the offset begins the line with this number: the text begins there, or a line feed stands in
front of it. -/
structure BeginsLine (source : String) (line offset : Nat) : Prop where
  behind : ∀ b ∈ ((bytes source).take offset).getLast?, b = lineFeed
  number : line = lineFeeds source offset + 1

/-- The bytes of a text that is given by its characters. -/
def utf8 (text : List Char) : List UInt8 := text.flatMap String.utf8EncodeChar

theorem bytes_eq (source : String) : bytes source = utf8 source.toList := by
  have hbytes : (String.ofList source.toList).toByteArray.data.toList = utf8 source.toList := by
    rw [String.toByteArray_ofList, List.utf8Encode, List.toList_data_toByteArray, utf8]
  rwa [String.ofList_toList] at hbytes

theorem utf8_append (s t : List Char) : utf8 (s ++ t) = utf8 s ++ utf8 t := List.flatMap_append

theorem length_utf8 (text : List Char) : (utf8 text).length = byteLength text := by
  induction text with
  | nil => rfl
  | cons c text ih =>
    rw [utf8, List.flatMap_cons, List.length_append, String.length_utf8EncodeChar, byteLength]
    exact congrArg (c.utf8Size + ·) ih

/-- Only a character of one byte has a byte below 128. -/
theorem toNat_of_mem_utf8EncodeChar {c : Char} {b : UInt8} (h : b ∈ String.utf8EncodeChar c) :
    b.toNat = c.toNat ∨ 128 ≤ b.toNat := by
  unfold String.utf8EncodeChar at h
  dsimp only at h
  split at h
  · left
    rw [List.mem_singleton.mp h, UInt8.toNat_ofNat']
    exact Nat.mod_eq_of_lt (by omega)
  · right
    split at h
    · rcases List.mem_pair.mp h with rfl | rfl <;> rw [UInt8.toNat_ofNat'] <;> omega
    · split at h
      · simp only [List.mem_cons, List.not_mem_nil, or_false] at h
        rcases h with rfl | rfl | rfl <;> rw [UInt8.toNat_ofNat'] <;> omega
      · simp only [List.mem_cons, List.not_mem_nil, or_false] at h
        rcases h with rfl | rfl | rfl | rfl <;> rw [UInt8.toNat_ofNat'] <;> omega

theorem eq_of_lineFeed_mem {c : Char} (h : lineFeed ∈ String.utf8EncodeChar c) : c = '\n' := by
  rcases toNat_of_mem_utf8EncodeChar h with hten | hlarge
  · exact Char.ext (UInt32.toNat_inj.mp hten.symm)
  · exact absurd hlarge (by decide)

theorem lineFeed_mem_utf8 {text : List Char} : lineFeed ∈ utf8 text ↔ '\n' ∈ text := by
  constructor
  · intro h
    obtain ⟨c, hc, hb⟩ := List.mem_flatMap.mp h
    rwa [← eq_of_lineFeed_mem hb]
  · exact fun h => List.mem_flatMap.mpr ⟨'\n', h, by decide⟩

/-- Line feeds can be counted among the characters. -/
theorem count_utf8 (text : List Char) : (utf8 text).count lineFeed = text.count '\n' := by
  induction text with
  | nil => rfl
  | cons c text ih =>
    rw [utf8, List.flatMap_cons, List.count_append, ← utf8, ih, List.count_cons, Nat.add_comm]
    by_cases hc : c = '\n'
    · subst hc
      rfl
    · have hnot : lineFeed ∉ String.utf8EncodeChar c := fun h => hc (eq_of_lineFeed_mem h)
      simp [List.count_eq_zero_of_not_mem hnot, hc]

section Front

variable {source : String} {front back : List Char} (h : source.toList = front ++ back)
include h

theorem take_bytes : (bytes source).take (byteLength front) = utf8 front := by
  rw [bytes_eq, h, utf8_append, ← length_utf8, List.take_left]

theorem lineFeeds_byteLength : lineFeeds source (byteLength front) = front.count '\n' := by
  rw [lineFeeds, take_bytes h, count_utf8]

end Front

end Source

open Source

namespace Position

/-- A position comes before another one in the order of lines and, within a line, of columns. -/
def Precedes (p q : Position) : Prop := p.line < q.line ∨ p.line = q.line ∧ p.column < q.column

/-- The position is the one of the offset: its line comes after as many others as there are line
feeds in front of the offset, and its column, counted from one, is the distance from the beginning
of that line. -/
structure Locates (source : String) (offset : Nat) (p : Position) : Prop where
  line : p.line = lineFeeds source offset + 1
  column : ∃ start ≤ offset, BeginsLine source p.line start ∧ p.column = offset - start + 1 ∧
    lineFeed ∉ ((bytes source).take offset).drop start

variable {p q r : Position} {source : String}

/-- A text consists of whole lines and of the beginning of one more, and the position after it tells
their number and the length of the rest. -/
theorem start_after (text : List Char) :
    ∃ lines row, text = lines ++ row ∧ (∀ c ∈ lines.getLast?, c = '\n') ∧ '\n' ∉ row ∧
      start.after text = ⟨lines.count '\n' + 1, byteLength row + 1⟩ := by
  induction text using List.reverseRecOn with
  | nil => exact ⟨[], [], rfl, by simp, by simp, rfl⟩
  | append_singleton text c ih =>
    obtain ⟨lines, row, rfl, hlines, hrow, hafter⟩ := ih
    have hnext : start.after (lines ++ row ++ [c]) = (start.after (lines ++ row)).next c :=
      List.foldl_concat ..
    rw [hnext, hafter, next]
    split
    · rename_i hc
      subst hc
      refine ⟨lines ++ row ++ ['\n'], [], (List.append_nil _).symm, by simp, by simp, ?_⟩
      simp [List.count_eq_zero_of_not_mem hrow, byteLength]
    · rename_i hc
      refine ⟨lines, row ++ [c], by rw [List.append_assoc], hlines, ?_, ?_⟩
      · simp [hrow, Ne.symm hc]
      · simp only [byteLength_append, byteLength, Position.mk.injEq, true_and]
        omega

/-- What the position after the front of a text says about the offset that is reached. -/
theorem locates_after {front back : List Char} (h : source.toList = front ++ back) :
    (start.after front).Locates source (byteLength front) := by
  obtain ⟨lines, row, rfl, hlines, hrow, hafter⟩ := start_after front
  have hsource : source.toList = lines ++ (row ++ back) := by rw [h, List.append_assoc]
  have hcount : (lines ++ row).count '\n' = lines.count '\n' := by
    rw [List.count_append, List.count_eq_zero_of_not_mem hrow, Nat.add_zero]
  rw [hafter]
  constructor
  · rw [lineFeeds_byteLength h, hcount]
  · refine ⟨byteLength lines, ?_, ⟨?_, ?_⟩, ?_, ?_⟩
    · rw [byteLength_append]
      exact Nat.le_add_right _ _
    · rw [take_bytes hsource]
      intro b hb
      cases hlast : lines.getLast? with
      | none =>
        rw [List.getLast?_eq_none_iff.mp hlast] at hb
        cases hb
      | some c =>
        obtain ⟨more, rfl⟩ := List.getLast?_eq_some_iff.mp hlast
        cases hlines c hlast
        rw [utf8_append, List.getLast?_append] at hb
        exact (Option.some.inj hb).symm
    · rw [lineFeeds_byteLength hsource]
    · rw [byteLength_append, Nat.add_sub_cancel_left]
    · rw [take_bytes h, utf8_append, ← length_utf8, List.drop_left, lineFeed_mem_utf8]
      exact hrow

theorem precedes_next (p : Position) (c : Char) : p.Precedes (p.next c) := by
  unfold next
  split
  · exact .inl (Nat.lt_succ_self _)
  · exact .inr ⟨rfl, Nat.lt_add_of_pos_right c.utf8Size_pos⟩

theorem Precedes.trans (hpq : p.Precedes q) (hqr : q.Precedes r) : p.Precedes r := by
  unfold Precedes at *
  omega

theorem Precedes.ne (h : p.Precedes q) : p ≠ q := by
  rintro rfl
  unfold Precedes at h
  omega

/-- Whatever is read, the position after it is a greater one. -/
theorem precedes_after {text : List Char} (hne : text ≠ []) (p : Position) :
    p.Precedes (p.after text) := by
  induction text generalizing p with
  | nil => exact absurd rfl hne
  | cons c text ih =>
    cases text with
    | nil => exact p.precedes_next c
    | cons d text => exact (p.precedes_next c).trans (ih (List.cons_ne_nil d text) (p.next c))

/-- Offsets further on in the text have greater positions. -/
theorem precedes_of_lt {a b : Nat} (hb : b ≤ source.utf8ByteSize)
    (hp : ofOffset? source a = some p) (hq : ofOffset? source b = some q) (hlt : a < b) :
    p.Precedes q := by
  obtain ⟨front, back, hsource, ha, rfl⟩ := ofOffset?_eq_some_iff.mp hp
  obtain ⟨front', back', hsource', hb', rfl⟩ := ofOffset?_eq_some_iff.mp hq
  have hshorter : byteLength front < byteLength front' := by omega
  rcases List.append_eq_append_iff.mp (hsource.symm.trans hsource') with
    ⟨more, rfl, -⟩ | ⟨more, rfl, -⟩
  · have hne : more ≠ [] := by
      rintro rfl
      rw [List.append_nil] at hshorter
      exact Nat.lt_irrefl _ hshorter
    have hafter : start.after (front ++ more) = (start.after front).after more := List.foldl_append
    rw [hafter]
    exact precedes_after hne _
  · rw [byteLength_append] at hshorter
    omega

/-- An offset that does not fall inside a character, or lies behind the end of the text, has a
position. -/
theorem exists_locates {offset : Nat}
    (h : IsCharBoundary source offset ∨ source.utf8ByteSize ≤ offset) :
    ∃ p, ofOffset? source offset = some p ∧ p.Locates source (min offset source.utf8ByteSize) := by
  have hboundary : IsCharBoundary source (min offset source.utf8ByteSize) := by
    rcases h with h | h
    · rwa [Nat.min_eq_left h.le]
    · rw [Nat.min_eq_right h]
      exact isCharBoundary_utf8ByteSize source
  obtain ⟨p, hp⟩ := exists_ofOffset?_iff.mpr hboundary
  obtain ⟨front, back, hsource, hoffset, rfl⟩ := ofOffset?_eq_some_iff.mp hp
  rw [hoffset]
  exact ⟨_, hp, locates_after hsource⟩

end Position

namespace Diagnostic

/-- The position is the one at which something that begins at the place is shown. -/
structure ShownAt (source : String) (place : Span) (p : Position) : Prop where
  computed : Position.ofOffset? source place.start = some p
  locates : p.Locates source (min place.start source.utf8ByteSize)

/-- Nothing that a diagnostic points at begins inside a character. -/
structure Presentable (source : String) (d : Diagnostic) : Prop where
  start : IsCharBoundary source d.span.start ∨ source.utf8ByteSize ≤ d.span.start
  notes : ∀ note ∈ d.related,
    IsCharBoundary source note.span.start ∨ source.utf8ByteSize ≤ note.span.start

variable {source : String}

theorem exists_notes {notes : List (Located String)}
    (h : ∀ note ∈ notes, IsCharBoundary source note.span.start ∨
      source.utf8ByteSize ≤ note.span.start) :
    ∃ positions, List.Forall₂ (fun note q => ShownAt source note.span q) notes positions ∧
      notes? source notes =
        some (String.join (notes.zipWith (fun note q => noteText q note.value) positions)) := by
  induction notes with
  | nil => exact ⟨[], .nil, rfl⟩
  | cons note notes ih =>
    obtain ⟨hnote, hnotes⟩ := List.forall_mem_cons.mp h
    obtain ⟨q, hq, hlocates⟩ := Position.exists_locates hnote
    obtain ⟨positions, hpositions, htext⟩ := ih hnotes
    refine ⟨q :: positions, .cons ⟨hq, hlocates⟩ hpositions, ?_⟩
    rw [notes?, hq, htext, List.zipWith_cons_cons, String.join_cons]

end Diagnostic

/-- Diagnostics are shown with the line and the column of the place that they point at, and so are
their notes. Of two offsets in a text the one further on has the greater line or, on the same line,
the greater column; so different ones have different positions. -/
theorem render_locates (source : String) :
    (∀ d : Diagnostic, d.Presentable source → ∃ p positions,
      Diagnostic.ShownAt source d.span p ∧
      List.Forall₂ (fun note q => Diagnostic.ShownAt source note.span q) d.related positions ∧
      d.render? source = some (p.text ++ ": " ++ d.text ++
        String.join (d.related.zipWith (fun note q => Diagnostic.noteText q note.value)
          positions))) ∧
    ∀ a ≤ source.utf8ByteSize, ∀ b ≤ source.utf8ByteSize, ∀ p q,
      Position.ofOffset? source a = some p → Position.ofOffset? source b = some q →
        (p = q → a = b) ∧ (a < b → p.Precedes q) := by
  constructor
  · intro d hd
    obtain ⟨p, hp, hlocates⟩ := Position.exists_locates hd.start
    obtain ⟨positions, hpositions, hnotes⟩ := Diagnostic.exists_notes hd.notes
    refine ⟨p, positions, ⟨hp, hlocates⟩, hpositions, ?_⟩
    rw [Diagnostic.render?, hp, hnotes]
  · intro a ha b hb p q hp hq
    refine ⟨fun heq => ?_, Position.precedes_of_lt hb hp hq⟩
    rcases Nat.lt_trichotomy a b with hlt | hab | hlt
    · exact absurd heq (Position.precedes_of_lt hb hp hq hlt).ne
    · exact hab
    · exact absurd heq.symm (Position.precedes_of_lt ha hq hp hlt).ne

/-- A note behind the end of a text whose last line is not ended, and a place behind a character of
two bytes. -/
def twoLines : String := "é\n\nab"

def pastTheEnd : Diagnostic :=
  ⟨none, .error, ⟨3, 4⟩, "m", none, [⟨"n", ⟨9, 9⟩⟩]⟩

theorem render_locates_twoLines :
    pastTheEnd.Presentable twoLines ∧
      (∃ p positions, Diagnostic.ShownAt twoLines pastTheEnd.span p ∧
        List.Forall₂ (fun note q => Diagnostic.ShownAt twoLines note.span q) pastTheEnd.related
          positions ∧
        pastTheEnd.render? twoLines = some (p.text ++ ": " ++ pastTheEnd.text ++
          String.join (pastTheEnd.related.zipWith (fun note q => Diagnostic.noteText q note.value)
            positions))) ∧
      Position.ofOffset? twoLines 2 = some ⟨1, 3⟩ ∧ Position.ofOffset? twoLines 3 = some ⟨2, 1⟩ ∧
      Position.Precedes ⟨1, 3⟩ ⟨2, 1⟩ := by
  have hboundary : IsCharBoundary twoLines 3 :=
    isCharBoundary_iff.mpr ⟨['é', '\n'], ['\n', 'a', 'b'], rfl, rfl⟩
  have hpresentable : pastTheEnd.Presentable twoLines :=
    ⟨.inl hboundary, List.forall_mem_singleton.mpr (.inr (by decide))⟩
  obtain ⟨hshown, hordered⟩ := render_locates twoLines
  have hfirst : Position.ofOffset? twoLines 2 = some ⟨1, 3⟩ := by decide
  have hsecond : Position.ofOffset? twoLines 3 = some ⟨2, 1⟩ := by decide
  exact ⟨hpresentable, hshown _ hpresentable, hfirst, hsecond,
    (hordered 2 (by decide) 3 (by decide) _ _ hfirst hsecond).2 (by decide)⟩

/-- Columns count bytes, and what lies behind the end is shown at the end. -/
example : Diagnostic.render? ⟨none, .error, ⟨2, 3⟩, "m", none, [⟨"n", ⟨9, 9⟩⟩]⟩ "é\n\nab" =
    some "1:3: error: m\n  3:3: note: n" := by
  decide

end TensorLoops
