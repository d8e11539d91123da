import MidIR.Graph.Postorder
import MidIR.Graph.Reachable
import MidIR.Proofs.Block.Bare

set_option autoImplicit false

namespace MidIR

-- What the queries of the graph see of a block.
structure Flow where
  label : Label
  successors : List Label
  targets : List Label

def Block.flow (block : Block) : Flow := ⟨block.label, block.successors, block.targets⟩

def BlockTable.flows (table : BlockTable) : List Flow := table.blocks.map Block.flow

structure BlockTable.SameFlow (a b : BlockTable) : Prop where
  index : a.index = b.index
  flows : a.flows = b.flows

theorem flow_labels (table : BlockTable) : table.labels = table.flows.map Flow.label := by
  simp [BlockTable.labels, BlockTable.flows, Block.flow, Function.comp_def]

theorem flow_size (table : BlockTable) : table.size = table.flows.length := by
  simp [BlockTable.size, BlockTable.flows]

theorem flow_at (table : BlockTable) (position : Nat) :
    (table.blockAt? position).map Block.flow = table.flows[position]? := by
  simp [BlockTable.blockAt?, BlockTable.flows]

theorem same_flow_position (a b : BlockTable) (same : a.SameFlow b) (label : Label) :
    a.position? label = b.position? label := by
  rw [BlockTable.position?, BlockTable.position?, same.index]

theorem same_flow_contains (a b : BlockTable) (same : a.SameFlow b) (label : Label) :
    a.contains label = b.contains label := by
  rw [BlockTable.contains, BlockTable.contains, same.index]

theorem same_flow_labels (a b : BlockTable) (same : a.SameFlow b) : a.labels = b.labels := by
  rw [flow_labels, flow_labels, same.flows]

theorem same_flow_size (a b : BlockTable) (same : a.SameFlow b) : a.size = b.size := by
  rw [flow_size, flow_size, same.flows]

theorem same_flow_at (a b : BlockTable) (same : a.SameFlow b) (position : Nat) :
    (a.blockAt? position).map Block.flow = (b.blockAt? position).map Block.flow := by
  rw [flow_at, flow_at, same.flows]

theorem same_flow_label_at (a b : BlockTable) (same : a.SameFlow b) (position : Nat) :
    (a.blockAt? position).map Block.label = (b.blockAt? position).map Block.label := by
  have shown := congrArg (Option.map Flow.label) (same_flow_at a b same position)
  simpa [Function.comp_def, Block.flow] using shown

theorem same_flow_get (a b : BlockTable) (same : a.SameFlow b) (label : Label) :
    (a.get? label).map Block.flow = (b.get? label).map Block.flow := by
  rw [BlockTable.get?, BlockTable.get?, same_flow_position a b same]
  cases b.position? label with
  | none => rfl
  | some position => exact same_flow_at a b same position

theorem same_flow_successors (a b : BlockTable) (same : a.SameFlow b) (label : Label) :
    a.successors label = b.successors label := by
  have looked : ∀ table : BlockTable, table.successors label =
      (((table.get? label).map Block.flow).map Flow.successors).getD [] := by
    intro table
    rw [BlockTable.successors]
    cases table.get? label <;> rfl
  rw [looked, looked, same_flow_get a b same]

theorem same_flow_hops (a b : BlockTable) (same : a.SameFlow b) :
    a.successorPositions = b.successorPositions := by
  have looked : ∀ (table : BlockTable) (position : Nat), table.successorPositions position =
      (((table.blockAt? position).map Block.flow).map fun flow =>
        flow.successors.filterMap table.position?).getD [] := by
    intro table position
    rw [BlockTable.successorPositions]
    cases table.blockAt? position <;> rfl
  have positions : a.position? = b.position? := funext (same_flow_position a b same)
  funext position
  rw [looked, looked, same_flow_at a b same, positions]

theorem same_flow_predecessors (a b : BlockTable) (same : a.SameFlow b) :
    a.predecessors = b.predecessors := by
  have folded : ∀ table : BlockTable, table.predecessors =
      table.flows.foldl
        (fun lists flow => BlockTable.addPredecessor flow.label flow.successors.eraseDups lists)
        (table.labels.foldl (fun lists label => lists.insert label []) ∅) := by
    intro table
    rw [BlockTable.flows, List.foldl_map]
    rfl
  rw [folded, folded, same.flows, same_flow_labels a b same]

theorem same_flow_reachable (a b : BlockTable) (same : a.SameFlow b) (start : Label) :
    a.reachableFrom start = b.reachableFrom start := by
  simp only [BlockTable.reachableFrom, same_flow_position a b same, same_flow_size a b same,
    same_flow_hops a b same, same_flow_label_at a b same]

theorem same_flow_unreachable (a b : BlockTable) (same : a.SameFlow b) (entry : Label) :
    a.unreachable entry = b.unreachable entry := by
  rw [BlockTable.unreachable, BlockTable.unreachable, same_flow_reachable a b same, same_flow_labels a b same]

theorem same_flow_postorder (a b : BlockTable) (same : a.SameFlow b) (entry : Label) :
    a.postorder entry = b.postorder entry := by
  simp only [BlockTable.postorder, same_flow_position a b same, same_flow_size a b same,
    same_flow_hops a b same, same_flow_label_at a b same]

theorem same_flow_dangling (a b : BlockTable) (same : a.SameFlow b) :
    a.danglingTargets = b.danglingTargets := by
  have scanned : ∀ table : BlockTable, table.danglingTargets =
      table.flows.flatMap fun flow => flow.targets.filterMap fun target =>
        if table.contains target then none else some (flow.label, target) := by
    intro table
    rw [BlockTable.flows, List.flatMap_map]
    rfl
  rw [scanned, scanned, same.flows]
  simp only [same_flow_contains a b same]

end MidIR
