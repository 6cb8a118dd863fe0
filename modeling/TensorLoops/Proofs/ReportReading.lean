import TensorLoops.Proofs.JsonReading
import TensorLoops.Report

namespace TensorLoops

open Text (Json)

namespace Text.Json

section Decoding

variable {α : Type}

/-- What an object holds under a name. -/
def member? (name : String) : Json → Option Json
  | object fields => fields.lookup name
  | _ => none

def bool? : Json → Option Bool
  | bool b => some b
  | _ => none

def string? : Json → Option String
  | string s => some s
  | _ => none

def natural? : Json → Option Nat
  | number (.ofNat n) => some n
  | _ => none

def items? (item? : Json → Option α) : Json → Option (List α)
  | array items => items.mapM item?
  | _ => none

theorem natural?_number (n : Nat) : natural? (number n) = some n := rfl

theorem items?_map {item? : Json → Option α} {t : α → Json} (h : ∀ a, item? (t a) = some a)
    (as : List α) : items? item? (array (as.map t)) = some as := by
  rw [items?]
  induction as with
  | nil => rfl
  | cons a as ih =>
    rw [List.map_cons, List.mapM_cons, h, ih]
    rfl

end Decoding

end Text.Json

namespace Report

open Text.Json

def extent? : Json → Option Extent
  | null => some .dynamic
  | number n => if 0 ≤ n ∧ n < UInt64.size then some (.known (.ofNat n.toNat)) else none
  | _ => none

def offset? : Json → Option Offset
  | null => some .dynamic
  | number n => if Offset.InRange n then some (.known (.ofInt n)) else none
  | _ => none

def direction? : Json → Option Direction
  | string "input" => some .input
  | string "output" => some .output
  | _ => none

def shape? : Json → Option (Option String)
  | null => some none
  | string s => some (some s)
  | _ => none

def loopId? (j : Json) : Option LoopId := do
  let n ← j.natural?
  if n < UInt32.size then some (.ofNat n) else none

def port? (j : Json) : Option PortReport := do
  let port ← (← j.member? "port").string?
  let direction ← direction? (← j.member? "port_type")
  let shape ← shape? (← j.member? "shape")
  let dim ← (← j.member? "dim_idx").natural?
  let incremented ← (← j.member? "is_incremented").bool?
  let dataSize ← (← j.member? "data_size").natural?
  let increment ← offset? (← j.member? "ptr_increment")
  let finalization ← offset? (← j.member? "finalization_offset")
  return { port, direction, shape, dim, incremented, dataSize, increment, finalization }

def loop? (j : Json) : Option LoopReport := do
  let id ← loopId? (← j.member? "id")
  let workAmount ← extent? (← j.member? "work_amount")
  let entries ← (← j.member? "entry_points").items? port?
  let exits ← (← j.member? "exit_points").items? port?
  return { id, workAmount, entries, exits }

def ofJson? (j : Json) : Option Report := do
  let loops ← (← j.member? "loops").items? loop?
  return { loops }

theorem extent?_extentJson (e : Extent) : extent? (extentJson e) = some e := by
  cases e with
  | dynamic => rfl
  | known n =>
    have hrange : 0 ≤ (n.toNat : Int) ∧ (n.toNat : Int) < UInt64.size := by
      have hn : n.toNat < UInt64.size := n.toNat_lt
      omega
    rw [extentJson, extent?, if_pos hrange, Int.toNat_natCast, UInt64.ofNat_toNat]

theorem offset?_offsetJson (o : Offset) : offset? (offsetJson o) = some o := by
  cases o with
  | dynamic => rfl
  | known n =>
    have hrange : Offset.InRange n.toInt := ⟨n.le_toInt, n.toInt_lt⟩
    rw [offsetJson, offset?, if_pos hrange, Int64.ofInt_toInt]

theorem direction?_directionJson (d : Direction) : direction? (directionJson d) = some d := by
  cases d <;> rfl

theorem shape?_shapeJson (s : Option String) : shape? (shapeJson s) = some s := by
  cases s <;> rfl

theorem loopId?_number (id : LoopId) : loopId? (number id.toNat) = some id := by
  have hid : id.toNat < UInt32.size := id.toNat_lt
  rw [loopId?, natural?_number, Option.bind_eq_bind, Option.bind_some, if_pos hid,
    UInt32.ofNat_toNat]

theorem port?_portJson (r : PortReport) : port? (portJson r) = some r := by
  simp [port?, portJson, member?, List.lookup_cons, string?, bool?, natural?_number,
    direction?_directionJson, shape?_shapeJson, offset?_offsetJson]

theorem loop?_loopJson (r : LoopReport) : loop? (loopJson r) = some r := by
  simp [loop?, loopJson, member?, List.lookup_cons, loopId?_number, extent?_extentJson,
    items?_map port?_portJson]

/-- Every field of a report is found in its document. -/
theorem ofJson?_json (r : Report) : ofJson? r.json = some r := by
  simp [ofJson?, json, member?, items?_map loop?_loopJson]

section Written

variable (depth level : Nat)

theorem gives_extentJson (e : Extent) :
    Gives (value depth) (textAt level (extentJson e)) (extentJson e) := by
  cases e with
  | known n => exact gives_number depth level _
  | dynamic => exact gives_null depth level

theorem gives_offsetJson (o : Offset) :
    Gives (value depth) (textAt level (offsetJson o)) (offsetJson o) := by
  cases o with
  | known n => exact gives_number depth level _
  | dynamic => exact gives_null depth level

theorem gives_directionJson (d : Direction) :
    Gives (value depth) (textAt level (directionJson d)) (directionJson d) := by
  cases d <;> exact gives_string depth level _

theorem gives_shapeJson (s : Option String) :
    Gives (value depth) (textAt level (shapeJson s)) (shapeJson s) := by
  cases s with
  | some s => exact gives_string depth level s
  | none => exact gives_null depth level

theorem gives_portJson (r : PortReport) :
    Gives (value (depth + 1)) (textAt level (portJson r)) (portJson r) := by
  refine gives_object depth level ?_
  simp only [List.forall_mem_cons, List.not_mem_nil, false_implies, implies_true, and_true]
  exact ⟨gives_string .., gives_directionJson .., gives_shapeJson .., gives_number ..,
    gives_bool .., gives_number .., gives_offsetJson .., gives_offsetJson ..⟩

theorem gives_ports (ports : List PortReport) :
    Gives (value (depth + 2)) (textAt level (.array (ports.map portJson)))
      (.array (ports.map portJson)) := by
  refine gives_array (depth + 1) level ?_
  simp only [List.forall_mem_map]
  exact fun r _ => gives_portJson depth (level + 1) r

theorem gives_loopJson (r : LoopReport) :
    Gives (value (depth + 3)) (textAt level (loopJson r)) (loopJson r) := by
  refine gives_object (depth + 2) level ?_
  simp only [List.forall_mem_cons, List.not_mem_nil, false_implies, implies_true, and_true]
  exact ⟨gives_number .., gives_extentJson .., gives_ports .., gives_ports ..⟩

theorem gives_json (r : Report) :
    Gives (value (depth + 5)) (textAt level r.json) r.json := by
  refine gives_object (depth + 4) level ?_
  simp only [List.forall_mem_cons, List.not_mem_nil, false_implies, implies_true, and_true]
  refine gives_array (depth + 3) (level + 1) ?_
  simp only [List.forall_mem_map]
  exact fun loop _ => gives_loopJson depth (level + 2) loop

end Written

/-- A JSON document is read from the text of a report in which every field is found again, with
`null` for what is dynamic or missing. So the text determines the report. -/
theorem json_determines (r : Report) :
    (∀ depth, Json.read? (depth + 5) r.json.text = some r.json) ∧ ofJson? r.json = some r ∧
      ∀ r' : Report, r'.json.text = r.json.text ↔ r' = r := by
  have hread (r : Report) (depth : Nat) : Json.read? (depth + 5) r.json.text = some r.json :=
    read?_text (gives_json depth 0 r)
  refine ⟨hread r, ofJson?_json r, fun r' => ⟨fun htext => ?_, fun h => h ▸ rfl⟩⟩
  have hjson : some r'.json = some r.json := by rw [← hread r' 0, htext, hread r 0]
  have hreport : some r' = some r := by
    rw [← ofJson?_json r', Option.some.inj hjson, ofJson?_json r]
  exact Option.some.inj hreport

end Report

end TensorLoops
