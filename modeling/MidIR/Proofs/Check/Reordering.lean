import MidIR.Check
import MidIR.Proofs.Graph.Part
import MidIR.Proofs.Graph.Predecessors

set_option autoImplicit false

namespace MidIR

section Reordered

variable {a b : BlockTable} (indexed : a.Indexed) (also : b.Indexed) (same : a.blocks.Perm b.blocks)

include indexed also same

theorem reordered_part : a.Part b fun _ => True := by
  refine ⟨indexed, also, ?_, fun _ _ _ _ => trivial⟩
  intro block
  rw [and_true, same.mem_iff]

theorem reordered_label_iff (label : Label) : label ∈ a.labels ↔ label ∈ b.labels := by
  rw [part_label_iff (reordered_part indexed also same), and_true]

theorem reordered_contains (label : Label) : a.contains label = b.contains label := by
  rw [Bool.eq_iff_iff, indexed_contains_iff a indexed, indexed_contains_iff b also,
    reordered_label_iff indexed also same]

theorem reordered_successors (label : Label) : a.successors label = b.successors label :=
  (part_successors (reordered_part indexed also same) label trivial).symm

theorem reordered_postorder (entry : Label) : a.postorder entry = b.postorder entry := by
  have present := reordered_label_iff indexed also same entry
  by_cases there : entry ∈ b.labels
  · exact (part_postorder (reordered_part indexed also same) entry there).symm
  · rw [postorder_absent a indexed entry (present.not.mpr there), postorder_absent b also entry there]

theorem reordered_reachable (start : Label) : a.reachableFrom start = b.reachableFrom start := by
  have paths := part_path_iff (reordered_part indexed also same) start
  apply Std.ExtHashSet.ext_mem
  intro label
  rw [reachable_from_iff a indexed, reachable_from_iff b also, reordered_label_iff indexed also same,
    paths label trivial]

theorem reordered_predecessors (label : Label) :
    Option.Rel List.Perm a.predecessors[label]? b.predecessors[label]? := by
  have present := reordered_label_iff indexed also same label
  rw [predecessors_get, predecessors_get]
  by_cases there : label ∈ b.labels
  · rw [if_pos (present.mpr there), if_pos there]
    exact .some ((same.filter _).map Block.label)
  · rw [if_neg (present.not.mpr there), if_neg there]
    exact .none

theorem reordered_unreachable (entry : Label) : (a.unreachable entry).Perm (b.unreachable entry) := by
  rw [BlockTable.unreachable, BlockTable.unreachable, reordered_reachable indexed also same]
  exact (same.map Block.label).filter _

theorem reordered_dangling : a.danglingTargets.Perm b.danglingTargets := by
  simp only [BlockTable.danglingTargets, reordered_contains indexed also same]
  exact same.flatMap_right _

theorem reordered_problems (convention : Convention) : (a.problems convention).Perm (b.problems convention) := by
  have missing : a.missingLabels convention = b.missingLabels convention := by
    simp only [BlockTable.missingLabels, reordered_contains indexed also same]
  have shapes : (a.blocks.flatMap (Block.shapeProblems convention.exit)).Perm
      (b.blocks.flatMap (Block.shapeProblems convention.exit)) := same.flatMap_right _
  have unreachable : (a.unreachableProblems convention).Perm (b.unreachableProblems convention) := by
    simp only [BlockTable.unreachableProblems, reordered_contains indexed also same]
    split_ifs
    · exact ((reordered_unreachable indexed also same convention.entry).filter _).map _
    · exact .refl []
  rw [BlockTable.problems, BlockTable.problems, missing]
  exact (((List.Perm.refl _).append shapes).append ((reordered_dangling indexed also same).map _)).append unreachable

end Reordered

theorem insertion_order_hidden (a b : BlockTable) (built : a.Built) (also : b.Built)
    (same : a.blocks.Perm b.blocks) :
    (∀ label, a.successors label = b.successors label) ∧
      (∀ entry, a.postorder entry = b.postorder entry) ∧
      (∀ start, a.reachableFrom start = b.reachableFrom start) ∧
      (∀ label : Label, Option.Rel List.Perm a.predecessors[label]? b.predecessors[label]?) ∧
      (∀ entry, (a.unreachable entry).Perm (b.unreachable entry)) ∧
      a.danglingTargets.Perm b.danglingTargets ∧
      ∀ (convention : Convention) (body other : Body), body.payload = .blocks a → other.payload = .blocks b →
        (body.problems convention).Perm (other.problems convention) := by
  have indexedA := built_indexed a built
  have indexedB := built_indexed b also
  refine ⟨reordered_successors indexedA indexedB same, reordered_postorder indexedA indexedB same,
    reordered_reachable indexedA indexedB same, reordered_predecessors indexedA indexedB same,
    reordered_unreachable indexedA indexedB same, reordered_dangling indexedA indexedB same, ?_⟩
  intro convention body other content held
  simp only [Body.problems, content, held]
  exact reordered_problems indexedA indexedB same convention

theorem crossing_table_reordered :
    let table := BlockTable.ofList crossingBlocks
    let turned := BlockTable.ofList crossingBlocks.reverse
    let body : Body := ⟨"cross.src", .synthetic, ∅, .blocks table⟩
    let other : Body := ⟨"cross.src", .synthetic, ∅, .blocks turned⟩
    table.Built ∧ turned.Built ∧ table.blocks.Perm turned.blocks ∧
      body.payload = .blocks table ∧ other.payload = .blocks turned ∧
      turned.labels = [⟨"far"⟩, ⟨"near"⟩, ⟨"top"⟩] ∧
      table.postorder ⟨"top"⟩ = turned.postorder ⟨"top"⟩ ∧
      Option.Rel List.Perm table.predecessors[(⟨"far"⟩ : Label)]? turned.predecessors[(⟨"far"⟩ : Label)]? ∧
      (body.problems {}).Perm (other.problems {}) := by
  intro table turned body other
  have built : table.Built := .ofList crossingBlocks
  have also : turned.Built := .ofList crossingBlocks.reverse
  have blocks : table.blocks = crossingBlocks := of_list_blocks crossingBlocks (by decide)
  have reversed : turned.blocks = crossingBlocks.reverse := of_list_blocks crossingBlocks.reverse (by decide)
  have labels : turned.labels = [⟨"far"⟩, ⟨"near"⟩, ⟨"top"⟩] := of_list_labels crossingBlocks.reverse (by decide)
  have same : table.blocks.Perm turned.blocks := by
    rw [blocks, reversed]
    exact (List.reverse_perm crossingBlocks).symm
  obtain ⟨-, postorder, -, predecessors, -, -, report⟩ := insertion_order_hidden table turned built also same
  exact ⟨built, also, same, rfl, rfl, labels, postorder _, predecessors _, report {} body other rfl rfl⟩

end MidIR
