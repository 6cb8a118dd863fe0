import TensorLoops.Offset
import TensorLoops.Graph

namespace TensorLoops

/-- A port of an expression inside a loop, and how the loop moves its pointer. -/
structure LoopPort where
  port : Port
  /-- The axis walked by the loop, counted from the innermost one. -/
  dim : Nat
  /-- Whether the loop advances the pointer. -/
  incremented : Bool
  /-- The size of an element in bytes. -/
  dataSize : Nat
  /-- The elements by which the pointer moves in one iteration. -/
  increment : Offset
  /-- The adjustment of the pointer after the last iteration. -/
  finalization : Offset
  deriving DecidableEq, Repr

namespace LoopPort

/-- A port whose pointer may move, with nothing computed yet. -/
def moving (port : Port) (dim : Nat) : LoopPort :=
  { port, dim, incremented := true, dataSize := 0, increment := .zero, finalization := .zero }

/-- The pointer stays where it is. -/
def fixed (p : LoopPort) : LoopPort := { p with incremented := false }

end LoopPort

/-- The number of iterations of a loop, and the ports at which data enters and leaves it. -/
structure LoopRecord where
  /-- The number of iterations. -/
  workAmount : Extent
  entries : List LoopPort
  exits : List LoopPort
  deriving DecidableEq, Repr

/-- The entries, then the exits. -/
def LoopRecord.ports (r : LoopRecord) : List LoopPort := r.entries ++ r.exits

/-- Changes the port at a position of `ports`, if there is one. -/
def LoopRecord.modifyPort (r : LoopRecord) (index : Nat) (f : LoopPort → LoopPort) : LoopRecord :=
  if index < r.entries.length then { r with entries := r.entries.modify index f }
  else { r with exits := r.exits.modify (index - r.entries.length) f }

/-- Loop records in ascending order of their ids. -/
structure LoopTable where
  entries : List (LoopId × LoopRecord)
  ascending : (entries.map Prod.fst).Pairwise (· < ·)

namespace LoopTable

@[ext] theorem ext {s t : LoopTable} (h : s.entries = t.entries) : s = t := by
  cases s; cases t; cases h; rfl

instance : DecidableEq LoopTable := fun s t =>
  decidable_of_iff (s.entries = t.entries) ⟨ext, fun h => h ▸ rfl⟩

def empty : LoopTable := ⟨[], .nil⟩

def size (t : LoopTable) : Nat := t.entries.length

def isEmpty (t : LoopTable) : Bool := t.entries.isEmpty

def get? (t : LoopTable) (id : LoopId) : Option LoopRecord :=
  (t.entries.find? (·.1 == id)).map Prod.snd

def contains (t : LoopTable) (id : LoopId) : Bool := t.entries.any (·.1 == id)

/-- A record that is there already is kept. -/
def insertEntry (id : LoopId) (r : LoopRecord) :
    List (LoopId × LoopRecord) → List (LoopId × LoopRecord)
  | [] => [(id, r)]
  | (k, s) :: rest =>
    if id < k then (id, r) :: (k, s) :: rest
    else if id = k then (k, s) :: rest
    else (k, s) :: insertEntry id r rest

theorem mem_insertEntry {id : LoopId} {r : LoopRecord} {l : List (LoopId × LoopRecord)}
    {x : LoopId} (h : x ∈ (insertEntry id r l).map Prod.fst) : x = id ∨ x ∈ l.map Prod.fst := by
  induction l with
  | nil => exact .inl (by simpa [insertEntry] using h)
  | cons hd tl ih =>
    obtain ⟨k, s⟩ := hd
    unfold insertEntry at h
    split at h
    · simpa using h
    · split at h
      · exact .inr h
      · rcases List.mem_cons.mp h with he | ht
        · exact .inr (by simp [he])
        · rcases ih ht with he | ht
          · exact .inl he
          · exact .inr (List.mem_cons_of_mem _ ht)

theorem ascending_insertEntry (id : LoopId) (r : LoopRecord) {l : List (LoopId × LoopRecord)}
    (h : (l.map Prod.fst).Pairwise (· < ·)) :
    ((insertEntry id r l).map Prod.fst).Pairwise (· < ·) := by
  induction l with
  | nil => simp [insertEntry]
  | cons hd tl ih =>
    obtain ⟨k, s⟩ := hd
    obtain ⟨hk, ht⟩ := List.pairwise_cons.mp h
    unfold insertEntry
    split
    · rename_i hlt
      refine List.pairwise_cons.mpr ⟨fun x hx => ?_, h⟩
      rcases List.mem_cons.mp hx with he | hm
      · exact he ▸ hlt
      · exact UInt32.lt_trans hlt (hk x hm)
    · rename_i hle
      split
      · exact h
      · rename_i hne
        refine List.pairwise_cons.mpr ⟨fun x hx => ?_, ih ht⟩
        rcases mem_insertEntry hx with he | hm
        · subst he
          exact UInt32.lt_of_le_of_ne (UInt32.not_lt.mp hle) (fun hc => hne hc.symm)
        · exact hk x hm

/-- Adds a record unless its id is taken. -/
def insert (t : LoopTable) (id : LoopId) (r : LoopRecord) : LoopTable :=
  ⟨insertEntry id r t.entries, ascending_insertEntry id r t.ascending⟩

/-- Changes the record of `id`, if there is one. -/
def modify (t : LoopTable) (id : LoopId) (f : LoopRecord → LoopRecord) : LoopTable where
  entries := t.entries.map fun entry => if entry.1 = id then (entry.1, f entry.2) else entry
  ascending := by
    rw [List.map_map, show Prod.fst ∘ _ = Prod.fst from funext fun entry => by
      dsimp only [Function.comp]; split <;> rfl]
    exact t.ascending

end LoopTable

/-- A kernel in linear form: its expressions and its loops. -/
structure Program where
  graph : Graph
  loops : LoopTable
  deriving DecidableEq

namespace Program

/-- A program without expressions is empty, whatever loops it declares. -/
def isEmpty (p : Program) : Bool := p.graph.expressions.isEmpty

/-- A port as it is written in a kernel; an expression that does not exist is called by its
position. -/
def portText (p : Program) (port : Port) : String :=
  let label := match p.graph.expression port.expr with
    | .ok e => e.label
    | .error _ => "#" ++ port.expr.repr
  label ++ "." ++ port.direction.keyword ++ "[" ++ port.index.repr ++ "]"

end Program

end TensorLoops
