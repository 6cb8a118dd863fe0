import TensorLoops.Compilation
import TensorLoops.Proofs.ProblemPlaces
import TensorLoops.Proofs.Runs

namespace TensorLoops

open Source

namespace Position

/-- The position after a text. -/
def after (p : Position) (text : List Char) : Position := text.foldl next p

theorem advance?_append (p : Position) {front back : List Char} {offset : Nat}
    (h : offset = byteLength front ∨ back = [] ∧ byteLength front ≤ offset) :
    p.advance? offset (front ++ back) = some (p.after front) := by
  induction front generalizing p offset with
  | nil =>
    rcases h with rfl | ⟨rfl, -⟩
    · cases back <;> simp [byteLength, advance?, after]
    · rfl
  | cons c front ih =>
    have hpos := c.utf8Size_pos
    rw [byteLength] at h
    have hrest : offset - c.utf8Size = byteLength front ∨
        back = [] ∧ byteLength front ≤ offset - c.utf8Size :=
      h.imp (fun h => by omega) (And.imp_right fun h => by omega)
    rw [List.cons_append, advance?, if_neg (by omega), if_neg (by omega), ih _ hrest]
    rfl

theorem front_of_advance? {p q : Position} {offset : Nat} {text : List Char}
    (h : p.advance? offset text = some q) :
    ∃ front back, text = front ++ back ∧ min offset (byteLength text) = byteLength front ∧
      q = p.after front := by
  induction text generalizing p offset with
  | nil => exact ⟨[], [], rfl, by simp [byteLength], (Option.some.inj h).symm⟩
  | cons c rest ih =>
    rw [advance?] at h
    split at h
    · rename_i hzero
      exact ⟨[], c :: rest, rfl, by simp [byteLength, hzero], (Option.some.inj h).symm⟩
    · split at h
      · cases h
      · obtain ⟨front, back, rfl, hlength, hq⟩ := ih h
        refine ⟨c :: front, back, rfl, ?_, hq⟩
        simp only [byteLength] at hlength ⊢
        omega

/-- The position of an offset is the one after the text in front of it, the whole text if the offset
lies behind its end. -/
theorem ofOffset?_eq_some_iff {source : String} {offset : Nat} {p : Position} :
    ofOffset? source offset = some p ↔
      ∃ front back, source.toList = front ++ back ∧
        min offset source.utf8ByteSize = byteLength front ∧ p = start.after front := by
  rw [← byteLength_toList]
  constructor
  · exact front_of_advance?
  · rintro ⟨front, back, hsource, hoffset, rfl⟩
    rw [hsource, byteLength_append] at hoffset
    -- an offset that has been cut off stands for the end of the text
    have hreached : offset = byteLength front ∨ back = [] ∧ byteLength front ≤ offset := by
      cases back with
      | nil => exact .inr ⟨rfl, by simp only [byteLength] at hoffset; omega⟩
      | cons c back =>
        have hpos := c.utf8Size_pos
        simp only [byteLength] at hoffset
        exact .inl (by omega)
    rw [ofOffset?, hsource, advance?_append _ hreached]

/-- There is a line and a column exactly for the offsets that, cut to the text, are boundaries. -/
theorem exists_ofOffset?_iff {source : String} {offset : Nat} :
    (∃ position, ofOffset? source offset = some position) ↔
      IsCharBoundary source (min offset source.utf8ByteSize) := by
  simp only [ofOffset?_eq_some_iff, isCharBoundary_iff]
  constructor
  · rintro ⟨position, front, back, hsource, hoffset, -⟩
    exact ⟨front, back, hsource, hoffset⟩
  · rintro ⟨front, back, hsource, hoffset⟩
    exact ⟨start.after front, front, back, hsource, hoffset, rfl⟩

end Position

theorem Source.IsCharBoundary.exists_position {source : String} {offset : Nat}
    (h : IsCharBoundary source offset) :
    ∃ position, Position.ofOffset? source offset = some position := by
  rwa [Position.exists_ofOffset?_iff, Nat.min_eq_left h.le]

namespace Diagnostic

/-- The diagnostic and its notes begin on boundaries of the source text, at its end at the
latest. -/
structure StandsIn (source : String) (d : Diagnostic) : Prop where
  start : IsCharBoundary source d.span.start ∧ d.span.start ≤ source.utf8ByteSize
  notes : ∀ note ∈ d.related,
    IsCharBoundary source note.span.start ∧ note.span.start ≤ source.utf8ByteSize

variable {source : String} {d : Diagnostic}

theorem notes?_eq_some {notes : List (Located String)}
    (h : ∀ note ∈ notes, IsCharBoundary source note.span.start) :
    ∃ text, notes? source notes = some text := by
  induction notes with
  | nil => exact ⟨"", rfl⟩
  | cons note notes ih =>
    obtain ⟨hnote, hnotes⟩ := List.forall_mem_cons.mp h
    obtain ⟨position, hposition⟩ := hnote.exists_position
    obtain ⟨text, htext⟩ := ih hnotes
    exact ⟨noteText position note.value ++ text, by rw [notes?, hposition, htext]⟩

theorem StandsIn.render?_eq_some (h : d.StandsIn source) :
    ∃ text, d.render? source = some text := by
  obtain ⟨position, hposition⟩ := h.start.1.exists_position
  obtain ⟨notes, hnotes⟩ := notes?_eq_some fun note hnote => (h.notes note hnote).1
  exact ⟨position.text ++ ": " ++ d.text ++ notes, by rw [render?, hposition, hnotes]⟩

end Diagnostic

theorem Problem.standsIn_of_placed {source : String} {ps : List (Located Problem)}
    (h : Placed (BeginsIn source) ps) : ∀ d ∈ diagnostics ps, d.StandsIn source := by
  refine List.forall_mem_map.mpr fun p hp => ?_
  obtain ⟨hspan, hnotes⟩ := h p hp
  exact ⟨⟨hspan, hspan.le⟩, fun note hnote => ⟨hnotes note hnote, (hnotes note hnote).le⟩⟩

variable {P : Span → Prop}

theorem Program.placed_applyOverrides {span : Span} (hspan : P span) (p : Program)
    (overrides : Overrides) : Problem.Placed P (p.applyOverrides span overrides).problems := by
  induction overrides generalizing p with
  | nil => exact Problem.placed_nil
  | cons entry rest ih =>
    obtain ⟨loop, n⟩ := entry
    refine Problem.placed_append.mpr ⟨?_, ih _⟩
    split
    · exact Problem.placed_nil
    · rename_i e _
      exact Problem.placed_of_related_nil hspan (by cases e <;> rfl)

namespace Compilation

variable {c : Compilation} {overrides : Overrides} {stage : Stage}

/-- The places in a compilation, those of its kernel and of its problems, satisfy `P`. -/
structure Placed (P : Span → Prop) (c : Compilation) : Prop where
  kernel : c.kernel.AllPlaces P
  problems : Problem.Placed P c.problems

/-- Lowering reports at places of the kernel, the other stages at that of the whole kernel. -/
theorem placed_perform {performed : Performed} (h : c.kernel.AllPlaces P)
    (hp : c.perform overrides stage = some performed) : Problem.Placed P performed.problems := by
  unfold perform at hp
  split at hp
  · cases hp
    exact placed_lower h
  · cases hp
  · cases hp
    unfold performResolve
    dsimp only
    split
    · exact Problem.placed_nil
    · exact Problem.placed_of_related_nil h.span rfl
  · cases hp
    exact Program.placed_applyOverrides h.span _ overrides
  · cases hp
    unfold performVerify
    dsimp only
    split
    · exact Problem.placed_nil
    · exact Problem.placed_of_related_nil h.span rfl

theorem Placed.advance {r : Run} (h : r.compilation.Placed P) :
    (r.advance overrides stage).compilation.Placed P := by
  unfold Run.advance
  split
  · exact h
  · split
    · exact h
    · rename_i performed hp
      obtain ⟨hkernel, hproblems, -, -⟩ := keeps_perform hp
      constructor
      · change performed.compilation.kernel.AllPlaces P
        rw [hkernel]
        exact h.kernel
      · change Problem.Placed P (performed.compilation.problems ++ performed.problems)
        rw [hproblems]
        exact Problem.placed_append.mpr ⟨h.problems, placed_perform h.kernel hp⟩

theorem Placed.run (h : c.Placed P) (terminal : Stage) (overrides : Overrides) :
    (c.run terminal overrides).compilation.Placed P :=
  List.foldlRecOn (motive := fun r : Run => r.compilation.Placed P) terminal.required _ h
    fun _ hr _ _ => hr.advance

end Compilation

/-- A text that can be read begins with a kernel and no problems, and any other with its errors. -/
theorem readSource_cases (source : String) :
    (∃ kernel, readSource source = .ok kernel ∧ (parse source).kernel = some kernel) ∨
      readSource source = .error (parse source).errors := by
  unfold readSource
  obtain ⟨kernel, errors⟩ := parse source
  cases kernel with
  | none => exact .inr rfl
  | some kernel =>
    cases errors with
    | nil => exact .inl ⟨kernel, rfl, rfl⟩
    | cons e errors => exact .inr rfl

theorem placed_compile (source : String) (terminal : Stage) (overrides : Overrides) :
    Problem.Placed (BeginsIn source)
      (compile source terminal overrides).compilation.problems := by
  rcases readSource_cases source with ⟨kernel, hread, hkernel⟩ | hread
  · have hplaced : (Compilation.ofSource source).Placed (BeginsIn source) := by
      unfold Compilation.ofSource
      rw [hread]
      exact ⟨allPlaces_of_parse hkernel, Problem.placed_nil⟩
    unfold compile
    dsimp only
    split
    · exact hplaced.problems
    · exact (hplaced.run terminal overrides).problems
  · have hcompile : (compile source terminal overrides).compilation.problems =
        Problem.ofParse (parse source).errors := by
      unfold compile Compilation.ofSource
      rw [hread]
      rfl
    rw [hcompile]
    exact List.forall_mem_map.mpr fun e he =>
      ⟨beginsIn_of_mem_errors he, fun _ hnote => absurd hnote List.not_mem_nil⟩

/-- All that a compilation reports can be rendered: neither a diagnostic nor one of its notes begins
inside a character or behind the end of the text. -/
theorem render_compile (source : String) (terminal : Stage) (overrides : Overrides) :
    ∀ d ∈ (compile source terminal overrides).compilation.diagnostics,
      d.StandsIn source ∧ ∃ text, d.render? source = some text := by
  intro d hd
  have hstands := Problem.standsIn_of_placed (placed_compile source terminal overrides) d hd
  exact ⟨hstands, hstands.render?_eq_some⟩

/-- A value that is defined twice, behind a comment with a character of two bytes. -/
def redefinedSource : String :=
  "# é\n%a = Parameter() : f32[4]\n%a = Parameter() : f32[8]\n"

def redefinition : Diagnostic :=
  Problem.diagnostic ⟨.duplicateValue "a" ⟨5, 7⟩, ⟨31, 33⟩⟩

theorem render_compile_redefined :
    redefinition ∈ (compile redefinedSource .verify []).compilation.diagnostics ∧
      redefinition.StandsIn redefinedSource ∧
      ∃ text, redefinition.render? redefinedSource = some text := by
  have hreported : redefinition ∈ (compile redefinedSource .verify []).compilation.diagnostics := by
    decide +kernel
  exact ⟨hreported, render_compile redefinedSource .verify [] redefinition hreported⟩

end TensorLoops
