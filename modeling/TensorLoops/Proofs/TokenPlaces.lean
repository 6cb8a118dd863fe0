import Mathlib.Data.String.Basic
import TensorLoops.Proofs.Scanning
import TensorLoops.Source.Grammar

namespace TensorLoops

/-- Nothing of `t` is outside of `s`. -/
def Span.Contains (s t : Span) : Prop := s.start ≤ t.start ∧ t.stop ≤ s.stop

instance (s t : Span) : Decidable (s.Contains t) := inferInstanceAs (Decidable (_ ∧ _))

namespace Source

/-- The text that stands at a place. -/
def slice (source : String) (s : Span) : String := String.Pos.Raw.extract source ⟨s.start⟩ ⟨s.stop⟩

theorem slice_of_append {source : String} {before text after : List Char}
    (h : source.toList = before ++ text ++ after) :
    slice source ⟨byteLength before, byteLength (before ++ text)⟩ = .ofList text := by
  have hsize : ∀ cs, String.utf8Len cs = byteLength cs := fun cs =>
    (String.utf8ByteSize_ofList cs).symm.trans (utf8ByteSize_eq_byteLength cs)
  have hextract := String.extract_of_valid before text after
  rw [hsize, hsize, ← byteLength_append, ← h, String.ofList_toList] at hextract
  exact hextract

/-- The tokens that stand inside a place. -/
def within (s : Span) (ts : Tokens) : Tokens := ts.filter fun t => s.Contains t.span

/-- No token is empty, and each token stands behind the one before it. -/
structure Ordered (ts : Tokens) : Prop where
  nonempty : ∀ t ∈ ts, t.span.start < t.span.stop
  apart : ts.Pairwise fun t u => t.span.stop ≤ u.span.start

theorem cover_eq {ts : Tokens} (hne : ts ≠ []) :
    cover ts = ⟨(ts.head hne).span.start, (ts.getLast hne).span.stop⟩ := by
  cases ts with
  | nil => exact absurd rfl hne
  | cons t ts => rfl

namespace Ordered

variable {ts us vs : Tokens} {t : Located Token}

theorem sublist (h : Ordered ts) (hus : us.Sublist ts) : Ordered us :=
  ⟨fun t ht => h.nonempty t (hus.subset ht), h.apart.sublist hus⟩

theorem contains_token (h : Ordered ts) (ht : t ∈ ts) : (cover ts).Contains t.span := by
  have hne := List.ne_nil_of_mem ht
  rw [cover_eq hne]
  constructor
  · have hcons := List.cons_head_tail hne
    have hapart := h.apart
    rw [← hcons] at ht hapart
    rcases List.mem_cons.mp ht with rfl | htail
    · exact Nat.le_refl _
    · have hle := (List.pairwise_cons.mp hapart).1 t htail
      have hlt := h.nonempty _ (List.head_mem hne)
      dsimp only
      omega
  · have hconcat := List.dropLast_append_getLast hne
    have hapart := h.apart
    rw [← hconcat] at ht hapart
    rcases List.mem_append.mp ht with hfront | hlast
    · have hle := (List.pairwise_append.mp hapart).2.2 t hfront _ (List.mem_singleton_self _)
      have hlt := h.nonempty _ (List.getLast_mem hne)
      dsimp only
      omega
    · rw [List.mem_singleton.mp hlast]

theorem contains_cover (h : Ordered ts) (hus : us ⊆ ts) (hne : us ≠ []) :
    (cover ts).Contains (cover us) := by
  rw [cover_eq hne]
  exact ⟨(h.contains_token (hus (List.head_mem hne))).1,
    (h.contains_token (hus (List.getLast_mem hne))).2⟩

theorem cover_nonempty (h : Ordered ts) (hne : ts ≠ []) : (cover ts).start < (cover ts).stop := by
  obtain ⟨hstart, hstop⟩ := h.contains_token (List.head_mem hne)
  have hlt := h.nonempty _ (List.head_mem hne)
  omega

theorem cover_apart (h : Ordered (us ++ vs)) (hus : us ≠ []) (hvs : vs ≠ []) :
    (cover us).stop ≤ (cover vs).start := by
  rw [cover_eq hus, cover_eq hvs]
  exact (List.pairwise_append.mp h.apart).2.2 _ (List.getLast_mem hus) _ (List.head_mem hvs)

/-- Tokens that follow each other directly are those at the place they cover. -/
theorem within_cover (h : Ordered ts) (hus : us <:+: ts) (hne : us ≠ []) :
    within (cover us) ts = us := by
  obtain ⟨before, after, rfl⟩ := hus
  have hapart := h.apart
  rw [List.append_assoc, List.pairwise_append, List.pairwise_append] at hapart
  obtain ⟨-, ⟨-, -, hafter⟩, hbefore⟩ := hapart
  have hmiddle : Ordered us := h.sublist (List.infix_append before us after).sublist
  have hfront : before.filter (fun t => (cover us).Contains t.span) = [] := by
    refine List.filter_eq_nil_iff.mpr fun t ht hinside => ?_
    have hstart := (of_decide_eq_true hinside).1
    have hle := hbefore t ht _ (List.mem_append_left after (List.head_mem hne))
    have hlt := h.nonempty t (by simp [ht])
    rw [cover_eq hne] at hstart
    dsimp only at hstart
    omega
  have hback : after.filter (fun t => (cover us).Contains t.span) = [] := by
    refine List.filter_eq_nil_iff.mpr fun t ht hinside => ?_
    have hstop := (of_decide_eq_true hinside).2
    have hle := hafter _ (List.getLast_mem hne) t ht
    have hlt := h.nonempty t (by simp [ht])
    rw [cover_eq hne] at hstop
    dsimp only at hstop
    omega
  have hinside : us.filter (fun t => (cover us).Contains t.span) = us :=
    List.filter_eq_self.mpr fun t ht => decide_eq_true (hmiddle.contains_token ht)
  rw [within, List.filter_append, List.filter_append, hfront, hback, hinside, List.nil_append,
    List.append_nil]

end Ordered

namespace Cut

variable {before text : List Char} {found more : List (Located Lexeme)} {ts us vs : Tokens}

theorem ordered (h : Cut before text (ts.map (·.map Lexeme.token))) : Ordered ts := by
  constructor
  · exact fun t ht => h.start_lt_stop (List.mem_map_of_mem ht)
  · exact List.pairwise_map.mp (h.pairwise.imp And.right)

/-- What stands in front of a lexeme can be left out. -/
theorem drop {l : Located Lexeme} (h : Cut before text (found ++ l :: more)) :
    ∃ front rest, text = front ++ rest ∧ byteLength (before ++ front) = l.span.start ∧
      Cut (before ++ front) rest (l :: more) := by
  generalize hall : found ++ l :: more = all at h
  induction h generalizing found with
  | done => simp at hall
  | @skip before gap rest _ _ _ ih =>
    obtain ⟨front, behind, rfl, hstart, hcut⟩ := ih hall
    rw [List.append_assoc] at hstart hcut
    exact ⟨gap ++ front, behind, by rw [List.append_assoc], hstart, hcut⟩
  | @read before piece rest value _ hreads hrest ih =>
    cases found with
    | nil =>
      obtain ⟨rfl, rfl⟩ := List.cons.inj hall
      refine ⟨[], piece ++ rest, rfl, by rw [List.append_nil], ?_⟩
      rw [List.append_nil]
      exact .read hreads hrest
    | cons m found =>
      obtain ⟨-, hall⟩ := List.cons.inj hall
      obtain ⟨front, behind, rfl, hstart, hcut⟩ := ih hall
      rw [List.append_assoc] at hstart hcut
      exact ⟨piece ++ front, behind, by rw [List.append_assoc], hstart, hcut⟩

theorem skipped_take {gap rest after : List Char} (hne : rest ≠ [])
    (h : Skipped (rest ++ after) gap) : Skipped rest gap := by
  cases h with
  | blank hblank => exact .blank hblank
  | comment hbody hstop =>
    rw [List.head?_append_of_ne_nil _ hne] at hstop
    exact .comment hbody hstop

/-- A token that ends in front of a text also ends in front of the beginning of it. -/
theorem reads_take {piece rest after : List Char} {t : Token}
    (h : Reads before (rest ++ after) piece (.token t)) : Reads before rest piece (.token t) := by
  cases h with
  | token hdenotes hstop =>
    exact .token hdenotes fun d hd => hstop d (List.mem_head?_append_of_mem_head? hd)

/-- What stands behind a token can be left out. -/
theorem take (h : Cut before text (us.map (·.map Lexeme.token) ++ more)) (hne : us ≠ []) :
    ∃ front rest, text = front ++ rest ∧ front ≠ [] ∧
      byteLength (before ++ front) = (cover us).stop ∧
      Cut before front (us.map (·.map Lexeme.token)) := by
  generalize hall : us.map (·.map Lexeme.token) ++ more = all at h
  induction h generalizing us with
  | done => exact absurd (List.map_eq_nil_iff.mp (List.append_eq_nil_iff.mp hall).1) hne
  | @skip before gap rest _ hskipped _ ih =>
    obtain ⟨front, behind, rfl, hfront, hstop, hcut⟩ := ih hne hall
    rw [List.append_assoc] at hstop
    -- a comment still ends where it did: what is kept behind it is not empty
    exact ⟨gap ++ front, behind, by rw [List.append_assoc],
      List.append_ne_nil_of_right_ne_nil _ hfront, hstop,
      .skip (skipped_take hfront hskipped) hcut⟩
  | @read before piece rest value _ hreads hrest ih =>
    cases us with
    | nil => exact absurd rfl hne
    | cons t us =>
      obtain ⟨hfirst, htail⟩ := List.cons.inj hall
      obtain ⟨t, span⟩ := t
      cases hfirst
      cases us with
      | nil =>
        have hdone : Cut (before ++ piece) [] [] := .done
        have hcut := Cut.read (reads_take hreads) hdone
        rw [List.append_nil] at hcut
        exact ⟨piece, rest, rfl, hreads.nonempty, rfl, hcut⟩
      | cons u us =>
        obtain ⟨front, behind, rfl, hfront, hstop, hcut⟩ := ih (List.cons_ne_nil u us) htail
        rw [List.append_assoc] at hstop
        exact ⟨piece ++ front, behind, by rw [List.append_assoc],
          List.append_ne_nil_of_right_ne_nil _ hfront, hstop, .read (reads_take hreads) hcut⟩

/-- The text at the place of tokens that follow each other directly is cut into these tokens. -/
theorem exists_slice (h : Cut [] text ((ts ++ us ++ vs).map (·.map Lexeme.token)))
    (hne : us ≠ []) :
    ∃ front middle rest, text = front ++ middle ++ rest ∧
      cover us = ⟨byteLength front, byteLength (front ++ middle)⟩ ∧
      Cut front middle (us.map (·.map Lexeme.token)) := by
  obtain ⟨t, us, rfl⟩ := List.exists_cons_of_ne_nil hne
  rw [List.append_assoc, List.map_append] at h
  obtain ⟨front, behind, rfl, hstart, hcut⟩ := drop h
  rw [List.nil_append] at hstart hcut
  have hfollow : Cut front behind
      ((t :: us).map (·.map Lexeme.token) ++ vs.map (·.map Lexeme.token)) := by
    rwa [← List.map_append]
  obtain ⟨middle, rest, rfl, -, hstop, htokens⟩ := hfollow.take hne
  refine ⟨front, middle, rest, by rw [List.append_assoc], ?_, htokens⟩
  rw [hstart, hstop]
  rfl

end Cut

variable {source : String}

/-- A text in which nothing is bad is cut into its tokens. -/
theorem cut_tokens (h : (scan source).badText = []) :
    Cut [] source.toList ((scan source).tokens.map (·.map Lexeme.token)) := by
  have hcut := cut_scan source
  rwa [Scan.lexemes, h, List.map_nil, List.merge_right] at hcut

/-- At the place of a token stands a text that denotes it. -/
theorem denotes_slice {t : Located Token} (ht : t ∈ (scan source).tokens) :
    Denotes (slice source t.span).toList t.value := by
  have hmem : t.map Lexeme.token ∈ (scan source).lexemes :=
    List.mem_merge.mpr (.inl (List.mem_map_of_mem ht))
  obtain ⟨front, read, rest, htext, -, hreads, hspan⟩ := (cut_scan source).exists_reads hmem
  have hplace : t.span = ⟨byteLength front, byteLength (front ++ read)⟩ := hspan
  have htoken : Reads front rest read (.token t.value) := hreads
  rw [hplace, slice_of_append htext, String.toList_ofList]
  cases htoken with
  | token hdenotes _ => exact hdenotes

end Source

end TensorLoops
