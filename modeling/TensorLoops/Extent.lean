import TensorLoops.Text.Bracketed

namespace TensorLoops

/-- The extent of an axis, or the number of iterations of a loop. A dynamic one is only known when
the kernel is called. -/
inductive Extent where
  | known (n : UInt64)
  | dynamic
  deriving DecidableEq, Repr

namespace Extent

def isDynamic : Extent → Bool
  | known _ => false
  | dynamic => true

/-- Holds of the number one only: a dynamic extent may turn out to be one, but is not. -/
def isOne (e : Extent) : Bool := e == known 1

/-- A dynamic extent is written `?`. -/
def text : Extent → String
  | known n => n.toNat.repr
  | dynamic => "?"

/-- A dynamic extent absorbs the other one, an extent of one gives way to it, and two other
extents have to be equal. -/
def merge? : Extent → Extent → Option Extent
  | dynamic, _ => some dynamic
  | known _, dynamic => some dynamic
  | known m, known n =>
    if m = n then some (known m)
    else if m = 1 then some (known n)
    else if n = 1 then some (known m)
    else none

@[simp] theorem merge?_dynamic_left (e : Extent) : merge? dynamic e = some dynamic := rfl

@[simp] theorem merge?_dynamic_right (e : Extent) : merge? e dynamic = some dynamic := by
  cases e <;> rfl

theorem merge?_self (e : Extent) : merge? e e = some e := by
  cases e <;> simp [merge?]

theorem merge?_comm (a b : Extent) : merge? a b = merge? b a := by
  cases a with
  | dynamic => simp
  | known m =>
    cases b with
    | dynamic => simp
    | known n =>
      simp only [merge?]
      by_cases hmn : m = n
      · simp [hmn]
      · have hnm : ¬ n = m := fun h => hmn h.symm
        by_cases hm : m = 1 <;> by_cases hn : n = 1 <;> simp_all

end Extent

/-- A shape is written as the list of its extents, the outermost first. -/
def shapeText (shape : List Extent) : String := Text.bracketed (shape.map Extent.text)

end TensorLoops
