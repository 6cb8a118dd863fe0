import TensorLoops.Resolution

namespace TensorLoops

/-- Whether each obligation holds of a program whose loop parameters have been computed. -/
structure Certificate where
  fixedPortsStay : Bool
  finalizationRewinds : Bool
  workAmountConsistent : Bool
  dataSizeSet : Bool
  deriving DecidableEq, Repr

namespace Certificate

/-- The obligations by name. -/
def obligations (c : Certificate) : List (String × Bool) :=
  [("P1_fixed_ports_stay", c.fixedPortsStay),
    ("P2_finalization_rewinds", c.finalizationRewinds),
    ("P3_work_amount_consistent", c.workAmountConsistent),
    ("P4_data_size_set", c.dataSizeSet)]

def allPass (c : Certificate) : Bool :=
  c.fixedPortsStay && c.finalizationRewinds && c.workAmountConsistent && c.dataSizeSet

/-- The names of the obligations that do not hold. -/
def failed (c : Certificate) : List String :=
  (c.obligations.filter fun o => !o.2).map Prod.fst

theorem allPass_iff_failed (c : Certificate) : c.allPass = true ↔ c.failed = [] := by
  obtain ⟨a, b, d, e⟩ := c
  cases a <;> cases b <;> cases d <;> cases e <;> simp [allPass, failed, obligations]

end Certificate

namespace LoopPort

/-- A pointer that does not move has an increment of zero. -/
def stays (p : LoopPort) : Bool := p.incremented || p.increment == .zero

/-- The finalization offset takes the pointer back to its start. -/
def rewinds (p : LoopPort) (workAmount : Extent) : Bool :=
  p.finalization == p.increment.rewind workAmount

end LoopPort

namespace LoopRecord

/-- A known number of iterations agrees with the merged extents of the moving ports, unless these
are dynamic. -/
def isConsistent (r : LoopRecord) (g : Graph) (loop : LoopId) : Bool :=
  r.workAmount.isDynamic ||
    match r.mergedExtent g loop with
    | .error _ => false
    | .ok .dynamic => true
    | .ok merged => merged.merge? r.workAmount == some r.workAmount

end LoopRecord

namespace Program

/-- Checks the obligations on every loop. -/
def certificate (p : Program) : Certificate where
  fixedPortsStay := p.loops.entries.all fun entry => entry.2.ports.all (·.stays)
  finalizationRewinds :=
    p.loops.entries.all fun entry => entry.2.ports.all (·.rewinds entry.2.workAmount)
  workAmountConsistent :=
    p.loops.entries.all fun entry => entry.2.isConsistent p.graph entry.1
  dataSizeSet := p.loops.entries.all fun entry => entry.2.ports.all (0 < ·.dataSize)

/-- The events of the second obligation, which is checked up to the first port that fails it. -/
def checkEvents : List (LoopPort × Extent) → List Event
  | [] => []
  | (p, workAmount) :: rest =>
    rewindEvents p.increment workAmount ++ if p.rewinds workAmount then checkEvents rest else []

def certificateEvents (p : Program) : List Event :=
  checkEvents (p.loops.entries.flatMap fun entry => entry.2.ports.map (·, entry.2.workAmount))

end Program

end TensorLoops
