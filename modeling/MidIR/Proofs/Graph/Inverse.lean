import MidIR.Proofs.Graph.Predecessors
import MidIR.Proofs.Graph.Reachable
import MidIR.Proofs.Graph.Recursion

set_option autoImplicit false

namespace MidIR

theorem own_successors (table : BlockTable) (indexed : table.Indexed) (block : Block)
    (member : block ∈ table.blocks) : table.successors block.label = block.successors := by
  have found := (indexed_get_iff table indexed block.label block).mpr ⟨member, rfl⟩
  rw [BlockTable.successors, found]

theorem sources_by_label (table : BlockTable) (indexed : table.Indexed) (target : Label) :
    (table.blocks.filter fun block => target ∈ block.successors).map Block.label =
      table.labels.filter fun source => target ∈ table.successors source := by
  rw [BlockTable.labels, List.filter_map]
  refine congrArg (List.map Block.label) (List.filter_congr fun block member => ?_)
  rw [Function.comp_apply, own_successors table indexed block member]

theorem blank_lists_size (labels : List Label) (distinct : labels.Nodup)
    (lists : Std.ExtHashMap Label (List Label)) (absent : ∀ label ∈ labels, label ∉ lists) :
    (labels.foldl (fun lists label => lists.insert label []) lists).size = lists.size + labels.length := by
  induction labels generalizing lists with
  | nil => rfl
  | cons first rest ih =>
      obtain ⟨once, others⟩ := List.nodup_cons.mp distinct
      have still : ∀ label ∈ rest, label ∉ lists.insert first [] := by
        intro label member found
        rcases Std.ExtHashMap.mem_insert.mp found with same | before
        · exact once (beq_iff_eq.mp same ▸ member)
        · exact absent label (List.mem_cons_of_mem first member) before
      rw [List.foldl_cons, ih others _ still, Std.ExtHashMap.size_insert, if_neg (absent first List.mem_cons_self),
        List.length_cons]
      omega

theorem add_predecessor_size (source : Label) (targets : List Label) (lists : Std.ExtHashMap Label (List Label)) :
    (BlockTable.addPredecessor source targets lists).size = lists.size := by
  induction targets generalizing lists with
  | nil => rfl
  | cons first rest ih =>
      have later := ih (lists.modify first (· ++ [source]))
      rw [Std.ExtHashMap.size_modify] at later
      exact later

theorem collect_predecessors_size (blocks : List Block) (lists : Std.ExtHashMap Label (List Label)) :
    (blocks.foldl (fun lists block =>
        BlockTable.addPredecessor block.label block.successors.eraseDups lists) lists).size = lists.size := by
  induction blocks generalizing lists with
  | nil => rfl
  | cons block rest ih => rw [List.foldl_cons, ih, add_predecessor_size]

theorem predecessors_size (table : BlockTable) (indexed : table.Indexed) : table.predecessors.size = table.size := by
  have distinct := indexed_labels_nodup table indexed
  rw [BlockTable.predecessors, collect_predecessors_size, blank_lists_size table.labels distinct ∅ (by simp),
    labels_length, Std.ExtHashMap.size_empty, Nat.zero_add]

theorem sources_iff (table : BlockTable) (indexed : table.Indexed) (source target : Label) :
    source ∈ table.labels.filter (fun source => target ∈ table.successors source) ↔
      target ∈ table.successors source := by
  rw [List.mem_filter, decide_eq_true_iff, and_iff_right_iff_imp]
  intro leads
  obtain ⟨block, member, same, -⟩ := (successors_iff table indexed source target).mp leads
  exact same ▸ List.mem_map_of_mem member

theorem predecessors_invert_successors (table : BlockTable) (built : table.Built) :
    table.predecessors.size = table.size ∧
      (∀ label, label ∈ table.predecessors ↔ label ∈ table.labels) ∧
      (∀ target ∈ table.labels, ∃ sources, table.predecessors[target]? = some sources ∧
        sources = (table.labels.filter fun source => target ∈ table.successors source) ∧
        sources.Nodup ∧
        ∀ source, source ∈ sources ↔ target ∈ table.successors source) ∧
      ∀ ghost, table.get? ghost = none → table.predecessors[ghost]? = none := by
  have indexed := built_indexed table built
  refine ⟨predecessors_size table indexed, predecessors_label_iff table, ?_, ?_⟩
  · intro target present
    refine ⟨_, ?_, rfl, (indexed_labels_nodup table indexed).filter _,
      fun source => sources_iff table indexed source target⟩
    rw [predecessors_get, if_pos present, sources_by_label table indexed]
  · intro ghost missing
    have absent : ghost ∉ table.labels := by
      intro present
      obtain ⟨block, member, same⟩ := List.mem_map.mp present
      rw [(indexed_get_iff table indexed ghost block).mpr ⟨member, same⟩] at missing
      cases missing
    rw [predecessors_get, if_neg absent]

theorem stuck_table_inverted :
    let table := BlockTable.ofList stuckBlocks
    table.Built ∧ ⟨"loop"⟩ ∈ table.labels ∧ table.get? ⟨"ghost"⟩ = none ∧
      table.predecessors[Label.mk "loop"]? = some [.entry, ⟨"loop"⟩] ∧
      table.predecessors[Label.mk "ghost"]? = none ∧ table.predecessors.size = 3 := by
  intro table
  have built : table.Built := .ofList stuckBlocks
  have labels : table.labels = [.entry, ⟨"loop"⟩, ⟨"island"⟩] := of_list_labels stuckBlocks (by decide)
  have leads := of_list_successors stuckBlocks (by decide)
  have present : ⟨"loop"⟩ ∈ table.labels := labels ▸ by decide
  have missing : table.get? ⟨"ghost"⟩ = none := by
    rw [get_find_block table (built_indexed table built), of_list_blocks stuckBlocks (by decide)]
    decide
  obtain ⟨size, -, lists, ghosts⟩ := predecessors_invert_successors table built
  obtain ⟨sources, found, listed, -, -⟩ := lists ⟨"loop"⟩ present
  refine ⟨built, present, missing, ?_, ghosts _ missing, ?_⟩
  · rw [found, listed, labels]
    simp only [table, leads]
    decide
  · rw [size, ← labels_length, labels]
    rfl

end MidIR
