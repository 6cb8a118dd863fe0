import TensorLoops.Proofs.KernelReading
import TensorLoops.Proofs.Scanning
import TensorLoops.Proofs.Shifting

namespace TensorLoops

namespace Source

/-- What a text is cut into does not depend on where it begins. -/
theorem place_shift (start offset : Nat) (ps : List Piece) :
    place (start + offset) ps = (place start ps).map (·.shift offset) := by
  induction ps generalizing start with
  | nil => rfl
  | cons p ps ih =>
    have hstop : start + offset + byteLength p.text = start + byteLength p.text + offset := by omega
    rw [place, place, List.map_cons, hstop, ih]
    rfl

theorem lexemeOf?_shift (offset : Nat) (p : Located Piece) :
    lexemeOf? (p.shift offset) = (lexemeOf? p).map (·.shift offset) := by
  unfold lexemeOf? Located.shift
  dsimp only
  cases p.value.kind <;> rfl

theorem lexemesFrom_shift (start offset : Nat) (text : List Char) :
    lexemesFrom (start + offset) text = (lexemesFrom start text).map (·.shift offset) := by
  unfold lexemesFrom
  rw [place_shift, List.filterMap_map, List.map_filterMap]
  exact congrArg (List.filterMap · _) (funext (lexemeOf?_shift offset))

/-- Only a piece of blanks runs over the end of a line. -/
theorem continues_newline {c : Char} (h : isBlank c = false) : continues c '\n' = false := by
  simp [continues, h, inWord]

/-- A line break ends whatever stands in front of it. -/
theorem lexemesFrom_append_newline (before text rest : List Char) :
    lexemesFrom (byteLength before) (text ++ '\n' :: rest) =
      lexemesFrom (byteLength before) text ++
        lexemesFrom (byteLength (before ++ text)) ('\n' :: rest) := by
  induction text using pieces_induction generalizing before with
  | nil => rw [lexemesFrom_nil, List.append_nil, List.nil_append, List.nil_append]
  | piece c run behind hpiece ih =>
    rw [List.append_assoc]
    cases hblank : isBlank c with
    | true =>
      have hrun := hpiece.run
      rw [continues_blank hblank] at hrun
      have hblanks : ∀ d ∈ c :: run, isBlank d = true := List.forall_mem_cons.mpr ⟨hblank, hrun⟩
      rw [lexemesFrom_skip hblanks, lexemesFrom_skip hblanks, ih, List.append_assoc]
    | false =>
      have hline : IsFirstPiece c run (behind ++ '\n' :: rest) := by
        refine ⟨hpiece.run, fun d hd => ?_⟩
        cases behind with
        | nil => cases hd; exact continues_newline hblank
        | cons e behind => exact hpiece.stop d hd
      rw [hline.lexemesFrom_eq, hpiece.lexemesFrom_eq, ih, List.append_assoc, List.append_assoc]

theorem tokenParts_shift (offset : Nat) (found : List (Located Lexeme)) :
    (found.map (·.shift offset)).filterMap tokenPart? =
      (found.filterMap tokenPart?).map (·.shift offset) := by
  rw [List.filterMap_map, List.map_filterMap]
  refine congrArg (List.filterMap · found) (funext fun l => ?_)
  obtain ⟨t | text, span⟩ := l <;> rfl

theorem badParts_shift (offset : Nat) (found : List (Located Lexeme)) :
    (found.map (·.shift offset)).filterMap badPart? =
      (found.filterMap badPart?).map (·.shift offset) := by
  rw [List.filterMap_map, List.map_filterMap]
  refine congrArg (List.filterMap · found) (funext fun l => ?_)
  obtain ⟨t | text, span⟩ := l <;> rfl

/-- The tokens and the bad text of two texts, one below the other, are those of both. -/
theorem scan_append_newline (upper lower : String) :
    scan (upper ++ "\n" ++ lower) =
      ⟨(scan upper).tokens ++ (scan lower).tokens.map (·.shift (upper.utf8ByteSize + 1)),
        (scan upper).badText ++ (scan lower).badText.map (·.shift (upper.utf8ByteSize + 1))⟩ := by
  have htext : (upper ++ "\n" ++ lower).toList = upper.toList ++ '\n' :: lower.toList := by
    rw [String.append_assoc, String.toList_append, String.toList_append]
    rfl
  have hbelow : lexemesFrom (byteLength upper.toList) ('\n' :: lower.toList) =
      (lexemesFrom 0 lower.toList).map (·.shift (upper.utf8ByteSize + 1)) := by
    rw [← lexemesFrom_shift, ← byteLength_toList upper]
    calc lexemesFrom (byteLength upper.toList) (['\n'] ++ lower.toList)
        = lexemesFrom (byteLength (upper.toList ++ ['\n'])) lower.toList :=
          lexemesFrom_blank rfl _ _
      _ = lexemesFrom (0 + (byteLength upper.toList + 1)) lower.toList := by
          rw [byteLength_append, Nat.zero_add]
          rfl
  have hlexemes := lexemesFrom_append_newline [] upper.toList lower.toList
  rw [List.nil_append, hbelow] at hlexemes
  simp only [scan_eq, htext]
  rw [show (0 : Nat) = byteLength [] from rfl, hlexemes]
  simp only [List.filterMap_append, tokenParts_shift, badParts_shift]
  rfl

theorem parse_eq_some_iff {source : String} {kernel : Kernel} :
    parse source = ⟨some kernel, []⟩ ↔
      (scan source).badText = [] ∧ Grammar.items.Derives (scan source).tokens kernel.items ∧
        kernel.span = kernelSpan source.utf8ByteSize (scan source).tokens := by
  rw [← readKernel_eq_ok]
  unfold parse
  dsimp only
  cases readKernel source.utf8ByteSize (scan source).tokens <;> simp [and_comm]

theorem exists_kernel_of_errors_eq_nil {source : String} (h : (parse source).errors = []) :
    ∃ kernel, parse source = ⟨some kernel, []⟩ := by
  unfold parse at h ⊢
  dsimp only at h ⊢
  cases hread : readKernel source.utf8ByteSize (scan source).tokens with
  | ok kernel =>
    rw [hread] at h
    exact ⟨kernel, congrArg (Parse.mk (some kernel)) h⟩
  | error e =>
    rw [hread] at h
    exact absurd h (List.append_ne_nil_of_right_ne_nil _ (List.cons_ne_nil e []))

end Source

open Source

/-- Two source texts in which nothing is wrong can be put one below the other. The items of the
whole are those of the upper text and, further on by its length and the line break, those of the
lower one. -/
theorem parse_append_newline {upper lower : String} (hupper : (parse upper).errors = [])
    (hlower : (parse lower).errors = []) :
    ∃ above below whole, parse upper = ⟨some above, []⟩ ∧ parse lower = ⟨some below, []⟩ ∧
      parse (upper ++ "\n" ++ lower) = ⟨some whole, []⟩ ∧
      whole.items = above.items ++ below.items.map (Item.shift (upper.utf8ByteSize + 1)) := by
  obtain ⟨above, habove⟩ := exists_kernel_of_errors_eq_nil hupper
  obtain ⟨below, hbelow⟩ := exists_kernel_of_errors_eq_nil hlower
  obtain ⟨hbadAbove, hitemsAbove, -⟩ := parse_eq_some_iff.mp habove
  obtain ⟨hbadBelow, hitemsBelow, -⟩ := parse_eq_some_iff.mp hbelow
  have hscan := scan_append_newline upper lower
  rw [hbadAbove, hbadBelow] at hscan
  have hshifted := Grammar.derives_shift_items (upper.utf8ByteSize + 1) hitemsBelow
  have hitems := hitemsAbove.append hshifted
  refine ⟨above, below, ⟨_, _⟩, habove, hbelow, parse_eq_some_iff.mpr ⟨?_, ?_, rfl⟩, rfl⟩
  · rw [hscan]
    rfl
  · rw [hscan]
    exact hitems

/-- An expression that could still go on with a layout or with loops, and a comment. -/
def loadLine : String := "%a = Load(%x) : f32[4] # é layout ["

def loopLine : String := "loop 3 work_amount = ? \x7b entry %a.in[0] dim 0 \x7d Result(%a)"

theorem parse_append_newline_loop :
    (parse loadLine).errors = [] ∧ (parse loopLine).errors = [] ∧
      ∃ above below whole, parse loadLine = ⟨some above, []⟩ ∧ parse loopLine = ⟨some below, []⟩ ∧
        parse (loadLine ++ "\n" ++ loopLine) = ⟨some whole, []⟩ ∧
        whole.items = above.items ++ below.items.map (Item.shift (loadLine.utf8ByteSize + 1)) := by
  have hload : (parse loadLine).errors = [] := by decide +kernel
  have hloop : (parse loopLine).errors = [] := by decide +kernel
  exact ⟨hload, hloop, parse_append_newline hload hloop⟩

end TensorLoops
