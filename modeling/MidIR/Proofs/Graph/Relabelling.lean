import Mathlib.Data.Set.Function
import MidIR.Proofs.Block.Relabelling
import MidIR.Proofs.Graph.Carried
import MidIR.Proofs.Graph.Predecessors
import MidIR.Proofs.Graph.Recursion

set_option autoImplicit false

namespace MidIR

namespace BlockTable

def mentioned (table : BlockTable) : List Label := table.labels ++ table.blocks.flatMap Block.targets

-- No two labels of the table, or of the others, become one.
def KeepsApart (table : BlockTable) (f : Label → Label) (others : List Label) : Prop :=
  Set.InjOn f {label | label ∈ table.mentioned ++ others}

def relabel (f : Label → Label) (table : BlockTable) : BlockTable :=
  .ofList (table.blocks.map (Block.relabel f))

end BlockTable

theorem mentioned_label (table : BlockTable) (others : List Label) (label : Label) (present : label ∈ table.labels) :
    label ∈ table.mentioned ++ others :=
  List.mem_append_left others (List.mem_append_left _ present)

theorem mentioned_target (table : BlockTable) (others : List Label) (block : Block) (member : block ∈ table.blocks)
    (target : Label) (named : target ∈ block.targets) : target ∈ table.mentioned ++ others :=
  List.mem_append_left others (List.mem_append_right _ (List.mem_flatMap.mpr ⟨block, member, named⟩))

theorem successors_named (block : Block) (target : Label) (leads : target ∈ block.successors) :
    target ∈ block.targets := by
  obtain ⟨before, last, markers, split, -, names⟩ := (block_successors_iff block target).mp leads
  exact List.mem_flatMap.mpr ⟨last, by simp [split], (op_names_iff last.op target).mp names⟩

theorem mentioned_successor (table : BlockTable) (indexed : table.Indexed) (others : List Label)
    (label target : Label) (leads : target ∈ table.successors label) : target ∈ table.mentioned ++ others := by
  obtain ⟨block, member, -, named⟩ := (successors_iff table indexed label target).mp leads
  exact mentioned_target table others block member target
    (successors_named block target ((block_successors_iff block target).mpr named))

theorem relabel_indexed (f : Label → Label) (table : BlockTable) : (table.relabel f).Indexed :=
  of_list_indexed _

section Relabelled

variable {table : BlockTable} {f : Label → Label} {others : List Label} (indexed : table.Indexed)
  (apart : table.KeepsApart f others)

include apart

theorem apart_mem_map (labels : List Label) (inside : labels ⊆ table.mentioned ++ others) (label : Label)
    (here : label ∈ table.mentioned ++ others) : f label ∈ labels.map f ↔ label ∈ labels := by
  rw [List.mem_map]
  constructor
  · rintro ⟨other, member, same⟩
    exact apart (inside member) here same ▸ member
  · exact fun member => ⟨label, member, rfl⟩

include indexed

theorem relabelled_blocks : (table.relabel f).blocks = table.blocks.map (Block.relabel f) := by
  refine of_list_blocks _ ?_
  have labels : (table.blocks.map (Block.relabel f)).map Block.label = table.labels.map f := by
    simp [BlockTable.labels, Block.relabel, Function.comp_def]
  rw [labels]
  refine (indexed_labels_nodup table indexed).map_on fun a presentA b presentB same => ?_
  exact apart (mentioned_label table others a presentA) (mentioned_label table others b presentB) same

theorem relabelled_labels : (table.relabel f).labels = table.labels.map f := by
  rw [BlockTable.labels, relabelled_blocks indexed apart]
  simp [BlockTable.labels, Block.relabel, Function.comp_def]

theorem relabelled_label_iff (label : Label) (here : label ∈ table.mentioned ++ others) :
    f label ∈ (table.relabel f).labels ↔ label ∈ table.labels := by
  rw [relabelled_labels indexed apart]
  exact apart_mem_map apart table.labels (mentioned_label table others) label here

theorem relabelled_contains (label : Label) (here : label ∈ table.mentioned ++ others) :
    (table.relabel f).contains (f label) = table.contains label := by
  rw [Bool.eq_iff_iff, indexed_contains_iff _ (relabel_indexed f table), indexed_contains_iff table indexed,
    relabelled_label_iff indexed apart label here]

theorem relabelled_get (label : Label) (here : label ∈ table.mentioned ++ others) :
    (table.relabel f).get? (f label) = (table.get? label).map (Block.relabel f) := by
  apply Option.ext
  intro block
  rw [indexed_get_iff _ (relabel_indexed f table), relabelled_blocks indexed apart, List.mem_map, Option.map_eq_some_iff]
  constructor
  · rintro ⟨⟨original, member, rfl⟩, same⟩
    have present := List.mem_map_of_mem (f := Block.label) member
    have equal := apart (mentioned_label table others original.label present) here same
    exact ⟨original, (indexed_get_iff table indexed label original).mpr ⟨member, equal⟩, rfl⟩
  · rintro ⟨original, found, rfl⟩
    obtain ⟨member, rfl⟩ := (indexed_get_iff table indexed label original).mp found
    exact ⟨⟨original, member, rfl⟩, rfl⟩

theorem relabelled_successors (label : Label) (here : label ∈ table.mentioned ++ others) :
    (table.relabel f).successors (f label) = (table.successors label).map f := by
  rw [BlockTable.successors, BlockTable.successors, relabelled_get indexed apart label here]
  cases table.get? label with
  | none => rfl
  | some block => exact relabel_successors f block

theorem relabelled_carries : table.Carries (table.relabel f) f (· ∈ table.mentioned ++ others) := by
  refine ⟨fun a b hereA hereB => apart hereA hereB, relabelled_label_iff indexed apart,
    fun label here _ => relabelled_successors indexed apart label here, ?_⟩
  intro label _ _ target leads
  exact mentioned_successor table indexed others label target leads

theorem relabelled_postorder (entry : Label) (here : entry ∈ table.mentioned ++ others) :
    (table.relabel f).postorder (f entry) = (table.postorder entry).map f := by
  rw [postorder_depth_first _ (relabel_indexed f table), postorder_depth_first table indexed,
    carried_depth_first (relabelled_carries indexed apart) entry here]

theorem relabelled_reached_iff (start : Label) (here : start ∈ table.mentioned ++ others) (label : Label)
    (inside : label ∈ table.mentioned ++ others) :
    f label ∈ (table.relabel f).reachableFrom (f start) ↔ label ∈ table.reachableFrom start := by
  have listed : table.postorder start ⊆ table.mentioned ++ others := by
    intro other member
    obtain ⟨present, path⟩ := (postorder_iff table indexed start other).mp member
    exact mentioned_label table others other (path_present table start other present path)
  rw [reachable_from_postorder _ (relabel_indexed f table), reachable_from_postorder table indexed,
    relabelled_postorder indexed apart start here, apart_mem_map apart _ listed label inside]

theorem relabelled_reachable_iff (start : Label) (here : start ∈ table.mentioned ++ others) (label : Label) :
    label ∈ (table.relabel f).reachableFrom (f start) ↔ ∃ reached ∈ table.reachableFrom start, f reached = label := by
  simp only [reachable_from_postorder _ (relabel_indexed f table), reachable_from_postorder table indexed,
    relabelled_postorder indexed apart start here, List.mem_map]

theorem relabelled_unreachable (entry : Label) (here : entry ∈ table.mentioned ++ others) :
    (table.relabel f).unreachable (f entry) = (table.unreachable entry).map f := by
  rw [BlockTable.unreachable, BlockTable.unreachable, relabelled_labels indexed apart, List.filter_map]
  refine congrArg (List.map f) (List.filter_congr fun label present => ?_)
  have reached := relabelled_reached_iff indexed apart entry here label (mentioned_label table others label present)
  rw [Function.comp_apply, Bool.eq_iff_iff, Bool.not_eq_true', Bool.not_eq_true', ← Bool.not_eq_true,
    ← Bool.not_eq_true, Std.ExtHashSet.contains_iff_mem, Std.ExtHashSet.contains_iff_mem, reached]

theorem relabelled_predecessors (label : Label) (here : label ∈ table.mentioned ++ others) :
    (table.relabel f).predecessors[f label]? = table.predecessors[label]?.map (List.map f) := by
  have present := relabelled_label_iff indexed apart label here
  rw [predecessors_get, predecessors_get, relabelled_blocks indexed apart]
  by_cases there : label ∈ table.labels
  · rw [if_pos (present.mpr there), if_pos there, Option.map_some, List.filter_map, List.map_map, List.map_map]
    refine congrArg some (congrArg (List.map _) (List.filter_congr fun block member => ?_))
    have inside : block.successors ⊆ table.mentioned ++ others := fun target leads =>
      mentioned_target table others block member target (successors_named block target leads)
    rw [Function.comp_apply, relabel_successors, decide_eq_decide, apart_mem_map apart _ inside label here]
  · rw [if_neg (present.not.mpr there), if_neg there]
    rfl

theorem relabelled_predecessor_lists (label : Label) :
    label ∈ (table.relabel f).predecessors ↔ ∃ original ∈ table.predecessors, f original = label := by
  simp only [predecessors_label_iff, relabelled_labels indexed apart, List.mem_map]

theorem relabelled_dangling : (table.relabel f).danglingTargets = table.danglingTargets.map (Prod.map f f) := by
  rw [BlockTable.danglingTargets, BlockTable.danglingTargets, relabelled_blocks indexed apart, List.flatMap_map,
    List.map_flatMap]
  refine List.flatMap_congr fun block member => ?_
  change (block.relabel f).targets.filterMap _ = _
  rw [relabel_targets, List.filterMap_map, List.map_filterMap]
  refine List.filterMap_congr fun target named => ?_
  have inside := mentioned_target table others block member target named
  rw [Function.comp_apply, relabelled_contains indexed apart target inside]
  cases table.contains target <;> rfl

end Relabelled

end MidIR
