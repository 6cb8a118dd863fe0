namespace TensorLoops

/-- The bytes of a UTF-8 text from `start` up to, but not including, `stop`. -/
structure Span where
  start : Nat
  stop : Nat
  deriving DecidableEq, Repr

namespace Span

/-- The empty span at a position. -/
def point (position : Nat) : Span := ⟨position, position⟩

def shift (s : Span) (offset : Nat) : Span := ⟨s.start + offset, s.stop + offset⟩

end Span

/-- Something that stands at a place in the source. -/
structure Located (α : Type) where
  value : α
  span : Span
  deriving DecidableEq, Repr

namespace Located

def map {α β : Type} (f : α → β) (l : Located α) : Located β := ⟨f l.value, l.span⟩

def shift {α : Type} (l : Located α) (offset : Nat) : Located α := ⟨l.value, l.span.shift offset⟩

end Located

/-- The number of bytes of a text. -/
def byteLength : List Char → Nat
  | [] => 0
  | c :: rest => c.utf8Size + byteLength rest

theorem byteLength_append (s t : List Char) :
    byteLength (s ++ t) = byteLength s + byteLength t := by
  induction s with
  | nil => simp [byteLength]
  | cons c s ih => simp only [List.cons_append, byteLength, ih, Nat.add_assoc]

end TensorLoops
