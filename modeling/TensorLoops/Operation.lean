namespace TensorLoops

inductive Operation where
  | load | broadcastLoad | loadReshape | store | brgemm
  | parameter | result | buffer
  | scalar | vectorBuffer
  | fill | convert | exp | relu | negative | sqrt | powerStatic | horizonMax | horizonSum
  | add | subtract | multiply | divide | maximum | minimum | power
  deriving DecidableEq, Repr

namespace Operation

def all : List Operation :=
  [load, broadcastLoad, loadReshape, store, brgemm, parameter, result, buffer, scalar,
    vectorBuffer, fill, convert, exp, relu, negative, sqrt, powerStatic, horizonMax, horizonSum,
    add, subtract, multiply, divide, maximum, minimum, power]

def name : Operation → String
  | load => "Load"
  | broadcastLoad => "BroadcastLoad"
  | loadReshape => "LoadReshape"
  | store => "Store"
  | brgemm => "Brgemm"
  | parameter => "Parameter"
  | result => "Result"
  | buffer => "Buffer"
  | scalar => "Scalar"
  | vectorBuffer => "VectorBuffer"
  | fill => "Fill"
  | convert => "Convert"
  | exp => "Exp"
  | relu => "Relu"
  | negative => "Negative"
  | sqrt => "Sqrt"
  | powerStatic => "PowerStatic"
  | horizonMax => "HorizonMax"
  | horizonSum => "HorizonSum"
  | add => "Add"
  | subtract => "Subtract"
  | multiply => "Multiply"
  | divide => "Divide"
  | maximum => "Maximum"
  | minimum => "Minimum"
  | power => "Power"

def ofName? (name : String) : Option Operation := all.find? (·.name == name)

/-- The number of operands. -/
def inputs : Operation → Nat
  | parameter | scalar | vectorBuffer => 0
  | load | broadcastLoad | loadReshape | store | result | buffer => 1
  | fill | convert | exp | relu | negative | sqrt | powerStatic | horizonMax | horizonSum => 1
  | brgemm => 2
  | add | subtract | multiply | divide | maximum | minimum | power => 2

/-- The number of values produced. -/
def outputs : Operation → Nat
  | result => 0
  | _ => 1

/-- Whether the operands lie in memory and are reached through pointers that a loop can advance. -/
def accessesMemory : Operation → Bool
  | load | broadcastLoad | loadReshape | store | brgemm => true
  | _ => false

/-- Whether this is the storage between the loop nest that produces a value and those that use
it. -/
def isBuffer : Operation → Bool
  | buffer => true
  | _ => false

theorem ofName?_name (op : Operation) : ofName? op.name = some op := by cases op <;> rfl

theorem name_of_ofName? {s : String} {op : Operation} (h : ofName? s = some op) : op.name = s := by
  simpa using List.find?_some h

end Operation

end TensorLoops
