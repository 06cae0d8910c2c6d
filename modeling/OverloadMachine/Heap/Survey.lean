import OverloadMachine.Heap

/-!
# Surveys of a heap

Positions in a heap depend on what was created and destroyed before. A survey
names nodes by the order in which they are met: first from the given values, in
their order, and then from the contents of the nodes that were met, breadth
first. Heaps that look alike from those values get the same survey.
-/

namespace OverloadMachine

/-- A composite or a cell of a heap. -/
inductive Node where
  | composite (id : CompositeId)
  | cell (id : CellId)
  deriving DecidableEq, Repr

/-- The node that a handle names. -/
def Value.node? : Value → Option Node
  | .composite id => some (.composite id)
  | .ref id => some (.cell id)
  | _ => none

/-- The nodes that were met, in the order of the first encounters. -/
structure Survey where
  met : Array Node

namespace Survey

/-- Meet the node that a value names, if it was not met before. -/
def meet (s : Survey) (v : Value) : Survey :=
  match v.node? with
  | some node => if s.met.contains node then s else ⟨s.met.push node⟩
  | none => s

/-- Meet the nodes that some values name, in order. -/
def meetAll (s : Survey) (vs : List Value) : Survey := vs.foldl meet s

/-- Composites in the order in which they were met. -/
def composites (s : Survey) : List CompositeId :=
  s.met.toList.filterMap fun node => match node with
    | .composite id => some id
    | .cell _ => none

/-- Cells in the order in which they were met. -/
def cells (s : Survey) : List CellId :=
  s.met.toList.filterMap fun node => match node with
    | .composite _ => none
    | .cell id => some id

/-- Number of a composite among the composites that were met. -/
def compositeNumber (s : Survey) (id : CompositeId) : Nat := s.composites.idxOf id

/-- Number of a cell among the cells that were met. -/
def cellNumber (s : Survey) (id : CellId) : Nat := s.cells.idxOf id

end Survey

namespace Heap

/-- What a node holds: the fields of a composite in the order of their names, or
the content of a cell. -/
def contents (h : Heap) : Node → List Value
  | .composite id =>
    match h.composite? id with
    | some c => c.fields.values
    | none => []
  | .cell id => [h.content id]

/-- Meet the contents of the nodes from a position of the survey on. The nodes
that are met on the way queue up behind it, and each is visited once. -/
def surveyFrom (h : Heap) : (fuel : Nat) → (next : Nat) → Survey → Survey
  | 0, _, s => s
  | fuel + 1, next, s =>
    match s.met[next]? with
    | some node => surveyFrom h fuel (next + 1) (s.meetAll (h.contents node))
    | none => s

/-- Survey of what can be reached from some values. -/
def survey (h : Heap) (roots : List Value) : Survey :=
  h.surveyFrom h.size 0 (Survey.meetAll ⟨#[]⟩ roots)

end Heap

end OverloadMachine
