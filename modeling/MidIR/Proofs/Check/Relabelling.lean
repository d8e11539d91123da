import MidIR.Check
import MidIR.Proofs.Graph.Relabelling

set_option autoImplicit false

namespace MidIR

def Convention.relabel (f : Label → Label) (convention : Convention) : Convention :=
  { convention with entry := f convention.entry, exit := f convention.exit }

def Body.relabel (f : Label → Label) (body : Body) : Body :=
  match body.payload with
  | .primitive _ => body
  | .blocks table => { body with payload := .blocks (table.relabel f) }

section Relabelled

variable {table : BlockTable} {f : Label → Label} {others : List Label} (indexed : table.Indexed)
  (apart : table.KeepsApart f others) (convention : Convention)
  (entry : convention.entry ∈ table.mentioned ++ others) (exit : convention.exit ∈ table.mentioned ++ others)

include indexed apart

include entry exit in
theorem relabelled_missing :
    (table.relabel f).missingLabels (convention.relabel f) =
      (table.missingLabels convention).map (Problem.relabel f) := by
  simp only [BlockTable.missingLabels, Convention.relabel, relabelled_contains indexed apart _ entry,
    relabelled_contains indexed apart _ exit, List.map_append]
  split_ifs <;> rfl

include exit in
theorem relabelled_shapes :
    (table.relabel f).blocks.flatMap (Block.shapeProblems (f convention.exit)) =
      (table.blocks.flatMap (Block.shapeProblems convention.exit)).map (Problem.relabel f) := by
  rw [relabelled_blocks indexed apart, List.flatMap_map, List.map_flatMap]
  refine List.flatMap_congr fun block member => relabel_shape_problems f block convention.exit ?_
  exact apart (mentioned_label table others block.label (List.mem_map_of_mem member)) exit

theorem relabelled_dangling_problems :
    ((table.relabel f).danglingTargets.map fun (label, target) => Problem.danglingTarget label target) =
      (table.danglingTargets.map fun (label, target) => Problem.danglingTarget label target).map (Problem.relabel f) := by
  rw [relabelled_dangling indexed apart, List.map_map, List.map_map]
  rfl

include entry exit in
theorem relabelled_unreachable_problems :
    (table.relabel f).unreachableProblems (convention.relabel f) =
      (table.unreachableProblems convention).map (Problem.relabel f) := by
  simp only [BlockTable.unreachableProblems, Convention.relabel, relabelled_contains indexed apart _ entry,
    relabelled_unreachable indexed apart _ entry]
  split_ifs
  · rw [List.filter_map, List.map_map, List.map_map]
    refine congrArg (List.map _) (List.filter_congr fun label listed => ?_)
    have present := ((unreachable_iff table indexed convention.entry label).mp listed).1
    have same : f label = f convention.exit ↔ label = convention.exit :=
      ⟨apart (mentioned_label table others label present) exit, congrArg f⟩
    exact decide_eq_decide.mpr same.not
  · rfl

include entry exit in
theorem relabelled_problems :
    (table.relabel f).problems (convention.relabel f) = (table.problems convention).map (Problem.relabel f) := by
  have missing := relabelled_missing indexed apart convention entry exit
  have shapes := relabelled_shapes indexed apart convention exit
  have dangling := relabelled_dangling_problems indexed apart
  have unreachable := relabelled_unreachable_problems indexed apart convention entry exit
  simp only [BlockTable.problems, List.map_append]
  exact congrArg₂ (· ++ ·) (congrArg₂ (· ++ ·) (congrArg₂ (· ++ ·) missing shapes) dangling) unreachable

end Relabelled

theorem relabelling_commutes (body : Body) (table : BlockTable) (content : body.payload = .blocks table)
    (built : table.Built) (convention : Convention) (query : Label) (f : Label → Label)
    (apart : table.KeepsApart f [convention.entry, convention.exit, query]) :
    (table.relabel f).blocks = table.blocks.map (Block.relabel f) ∧
      (table.relabel f).successors (f query) = (table.successors query).map f ∧
      (table.relabel f).postorder (f query) = (table.postorder query).map f ∧
      (∀ label, label ∈ (table.relabel f).reachableFrom (f query) ↔
        ∃ reached ∈ table.reachableFrom query, f reached = label) ∧
      (table.relabel f).unreachable (f query) = (table.unreachable query).map f ∧
      (table.relabel f).predecessors[f query]? = table.predecessors[query]?.map (List.map f) ∧
      (∀ label, label ∈ (table.relabel f).predecessors ↔ ∃ original ∈ table.predecessors, f original = label) ∧
      (table.relabel f).danglingTargets = table.danglingTargets.map (Prod.map f f) ∧
      (body.relabel f).problems (convention.relabel f) = (body.problems convention).map (Problem.relabel f) := by
  have indexed := built_indexed table built
  have entry : convention.entry ∈ table.mentioned ++ [convention.entry, convention.exit, query] := by simp
  have exit : convention.exit ∈ table.mentioned ++ [convention.entry, convention.exit, query] := by simp
  have here : query ∈ table.mentioned ++ [convention.entry, convention.exit, query] := by simp
  refine ⟨relabelled_blocks indexed apart, relabelled_successors indexed apart query here,
    relabelled_postorder indexed apart query here, relabelled_reachable_iff indexed apart query here,
    relabelled_unreachable indexed apart query here, relabelled_predecessors indexed apart query here,
    relabelled_predecessor_lists indexed apart, relabelled_dangling indexed apart, ?_⟩
  simp only [Body.relabel, Body.problems, content]
  exact relabelled_problems indexed apart convention entry exit

def swapNearFar (label : Label) : Label :=
  if label = ⟨"near"⟩ then ⟨"far"⟩
  else if label = ⟨"far"⟩ then ⟨"near"⟩
  else if label = ⟨"ghost"⟩ then ⟨"phantom"⟩
  else label

theorem crossing_table_relabelled :
    let table := BlockTable.ofList crossingBlocks
    let body : Body := ⟨"cross.src", .synthetic, ∅, .blocks table⟩
    body.payload = .blocks table ∧ table.Built ∧ table.KeepsApart swapNearFar [.entry, .exit, ⟨"top"⟩] ∧
      (table.relabel swapNearFar).postorder ⟨"top"⟩ = (table.postorder ⟨"top"⟩).map swapNearFar ∧
      ((body.relabel swapNearFar).problems {}) = (body.problems {}).map (Problem.relabel swapNearFar) := by
  intro table body
  have built : table.Built := .ofList crossingBlocks
  have mentioned : table.mentioned = crossingBlocks.map Block.label ++ crossingBlocks.flatMap Block.targets := by
    rw [BlockTable.mentioned, of_list_labels crossingBlocks (by decide), of_list_blocks crossingBlocks (by decide)]
  have apart : table.KeepsApart swapNearFar [.entry, .exit, ⟨"top"⟩] := by
    have checked : ∀ a ∈ table.mentioned ++ [.entry, .exit, ⟨"top"⟩], ∀ b ∈ table.mentioned ++ [.entry, .exit, ⟨"top"⟩],
        swapNearFar a = swapNearFar b → a = b := by
      rw [mentioned]
      decide
    exact fun a hereA b hereB => checked a hereA b hereB
  obtain ⟨-, -, postorder, -, -, -, -, -, report⟩ :=
    relabelling_commutes body table rfl built {} ⟨"top"⟩ swapNearFar apart
  exact ⟨rfl, built, apart, postorder, report⟩

end MidIR
