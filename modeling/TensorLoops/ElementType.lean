namespace TensorLoops

inductive ElementType where
  | f64 | f32 | f16 | bf16 | i64 | i32 | i16 | i8 | u8 | boolean
  deriving DecidableEq, Repr

namespace ElementType

def all : List ElementType := [f64, f32, f16, bf16, i64, i32, i16, i8, u8, boolean]

def name : ElementType → String
  | f64 => "f64"
  | f32 => "f32"
  | f16 => "f16"
  | bf16 => "bf16"
  | i64 => "i64"
  | i32 => "i32"
  | i16 => "i16"
  | i8 => "i8"
  | u8 => "u8"
  | boolean => "boolean"

def ofName? (name : String) : Option ElementType := all.find? (·.name == name)

/-- The size of one element in bytes. -/
def size : ElementType → Nat
  | f64 | i64 => 8
  | f32 | i32 => 4
  | f16 | bf16 | i16 => 2
  | i8 | u8 | boolean => 1

theorem size_pos (t : ElementType) : 0 < t.size := by cases t <;> decide

theorem ofName?_name (t : ElementType) : ofName? t.name = some t := by cases t <;> rfl

theorem name_of_ofName? {s : String} {t : ElementType} (h : ofName? s = some t) : t.name = s := by
  simpa using List.find?_some h

end ElementType

end TensorLoops
