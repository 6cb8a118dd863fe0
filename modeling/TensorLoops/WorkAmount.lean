import TensorLoops.Walk

namespace TensorLoops

/-- Merges the extents of `ports` into `amount`, up to the first one that does not fit. -/
def mergeExtents (g : Graph) (loop : LoopId) (amount : Extent) :
    List LoopPort → Except LoopError Extent
  | [] => .ok amount
  | p :: rest =>
    match p.walk g with
    | .error e => .error (.lookup e)
    | .ok w =>
      match amount.merge? w.extent with
      | none => .error (.incompatible loop amount w.extent)
      | some merged => mergeExtents g loop merged rest

namespace LoopRecord

/-- The ports whose pointers move. -/
def movingPorts (r : LoopRecord) : List LoopPort := r.ports.filter (·.incremented)

/-- The merged extents of the moving ports; without any there is one iteration. -/
def mergedExtent (r : LoopRecord) (g : Graph) (loop : LoopId) : Except LoopError Extent :=
  mergeExtents g loop (.known 1) r.movingPorts

/-- A declared number of iterations is kept. -/
def resolvedAmount (r : LoopRecord) (g : Graph) (loop : LoopId) : Except LoopError Extent :=
  if r.workAmount.isDynamic then r.mergedExtent g loop else .ok r.workAmount

end LoopRecord

end TensorLoops
