import Mathlib.Data.List.Count
import MidIR.Graph.Edges
import MidIR.Proofs.Block.Bare
import MidIR.Proofs.Table.Index

set_option autoImplicit false

namespace MidIR

def Block.references (block : Block) : List (Label × Label) :=
  block.targets.map fun target => (block.label, target)

def BlockTable.references (table : BlockTable) : List (Label × Label) :=
  table.blocks.flatMap Block.references

theorem reference_source (block : Block) (pair : Label × Label) (member : pair ∈ block.references) :
    pair.1 = block.label := by
  obtain ⟨_, _, same⟩ := List.mem_map.mp member
  exact (congrArg Prod.fst same).symm

theorem references_iff (table : BlockTable) (source target : Label) :
    (source, target) ∈ table.references ↔ ∃ block ∈ table.blocks, block.label = source ∧
      ∃ instr ∈ block.instrs, instr.op.Names target := by
  have named : ∀ block : Block, target ∈ block.targets ↔ ∃ instr ∈ block.instrs, instr.op.Names target := by
    simp [Block.targets, op_names_iff]
  simp only [BlockTable.references, Block.references, List.mem_flatMap, List.mem_map, Prod.mk.injEq,
    exists_eq_right_right, ← named]
  exact exists_congr fun block => and_congr_right fun _ => and_comm

theorem reference_count (block : Block) (source target : Label) :
    block.references.count (source, target) = if block.label = source then block.targets.count target else 0 := by
  by_cases same : block.label = source
  · subst same
    have injective : Function.Injective fun target : Label => (block.label, target) :=
      fun _ _ equal => congrArg Prod.snd equal
    rw [if_pos rfl]
    exact List.count_map_of_injective block.targets _ injective target
  · rw [if_neg same]
    exact List.count_eq_zero_of_not_mem fun member => same (reference_source block _ member).symm

theorem references_count (blocks : List Block) (source target : Label) :
    (blocks.flatMap Block.references).count (source, target) =
      ((blocks.filter fun block => block.label = source).flatMap Block.targets).count target := by
  induction blocks with
  | nil => rfl
  | cons block rest ih =>
      rw [List.flatMap_cons, List.count_append, ih, reference_count]
      by_cases same : block.label = source <;> simp [same]

section Indexed

variable (table : BlockTable) (indexed : table.Indexed)

include indexed

theorem dangling_references :
    table.danglingTargets = table.references.filter fun pair => pair.2 ∉ table.labels := by
  rw [BlockTable.references, List.filter_flatMap, BlockTable.danglingTargets]
  refine List.flatMap_congr fun block _ => ?_
  rw [Block.references, List.filter_map, ← List.filterMap_eq_map, List.filterMap_filter]
  refine List.filterMap_congr fun target _ => ?_
  by_cases present : target ∈ table.labels <;> simp [indexed_contains_iff table indexed, present]

theorem dangling_iff_missing (pair : Label × Label) (listed : pair ∈ table.references) :
    pair ∈ table.danglingTargets ↔ pair.2 ∉ table.labels := by
  rw [dangling_references table indexed, List.mem_filter, decide_eq_true_iff]
  exact and_iff_right listed

theorem dangling_iff (source target : Label) :
    (source, target) ∈ table.danglingTargets ↔ ∃ block ∈ table.blocks, block.label = source ∧
      ∃ instr ∈ block.instrs, instr.op.Names target ∧ target ∉ table.labels := by
  rw [dangling_references table indexed, List.mem_filter, references_iff, decide_eq_true_iff]
  simp only [← and_assoc, exists_and_right]

end Indexed

end MidIR
