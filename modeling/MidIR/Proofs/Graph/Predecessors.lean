import MidIR.Proofs.Graph.Path

set_option autoImplicit false

namespace MidIR

theorem erase_dups_nodup (labels : List Label) : labels.eraseDups.Nodup := by
  match labels with
  | [] => exact List.nodup_nil
  | label :: rest =>
      have shorter : (rest.filter fun other => !other == label).length < rest.length + 1 :=
        Nat.lt_succ_of_le (List.length_filter_le _ rest)
      rw [List.eraseDups_cons, List.nodup_cons]
      exact ⟨by simp, erase_dups_nodup _⟩
termination_by labels.length

theorem blank_lists_get (labels : List Label) (lists : Std.ExtHashMap Label (List Label)) (label : Label) :
    (labels.foldl (fun lists label => lists.insert label []) lists)[label]? =
      if label ∈ labels then some [] else lists[label]? := by
  induction labels generalizing lists with
  | nil => simp
  | cons first rest ih =>
      rw [List.foldl_cons, ih, Std.ExtHashMap.getElem?_insert]
      by_cases later : label ∈ rest
      · simp [later]
      · by_cases here : first = label
        · simp [here]
        · simp [later, here, Ne.symm here]

theorem add_predecessor_get (source : Label) (targets : List Label) (distinct : targets.Nodup)
    (lists : Std.ExtHashMap Label (List Label)) (label : Label) :
    (BlockTable.addPredecessor source targets lists)[label]? =
      if label ∈ targets then lists[label]?.map (· ++ [source]) else lists[label]? := by
  induction targets generalizing lists with
  | nil => simp [BlockTable.addPredecessor]
  | cons first rest ih =>
      obtain ⟨once, others⟩ := List.nodup_cons.mp distinct
      have later := ih others (lists.modify first (· ++ [source]))
      rw [BlockTable.addPredecessor, List.foldl_cons]
      rw [BlockTable.addPredecessor] at later
      rw [later, Std.ExtHashMap.getElem?_modify]
      by_cases here : first = label
      · subst here
        simp [once]
      · simp [here, Ne.symm here]

theorem collect_predecessors_get (blocks : List Block) (lists : Std.ExtHashMap Label (List Label))
    (label : Label) :
    (blocks.foldl (fun lists block =>
        BlockTable.addPredecessor block.label block.successors.eraseDups lists) lists)[label]? =
      lists[label]?.map (· ++ (blocks.filter fun block => label ∈ block.successors).map Block.label) := by
  induction blocks generalizing lists with
  | nil => simp
  | cons block rest ih =>
      rw [List.foldl_cons, ih, add_predecessor_get block.label _ (erase_dups_nodup block.successors)]
      by_cases here : label ∈ block.successors
      · simp [here, Function.comp_def]
      · simp [here]

theorem predecessors_get (table : BlockTable) (label : Label) :
    table.predecessors[label]? =
      if label ∈ table.labels then
        some ((table.blocks.filter fun block => label ∈ block.successors).map Block.label)
      else
        none := by
  rw [BlockTable.predecessors, collect_predecessors_get, blank_lists_get]
  by_cases present : label ∈ table.labels <;> simp [present]

theorem predecessors_label_iff (table : BlockTable) (label : Label) :
    label ∈ table.predecessors ↔ label ∈ table.labels := by
  rw [← Std.ExtHashMap.isSome_getElem?_iff_mem, predecessors_get]
  by_cases present : label ∈ table.labels <;> simp [present]

theorem edge_predecessor (table : BlockTable) (source target : Label) (edge : table.Edge source target) :
    ∃ sources, table.predecessors[target]? = some sources ∧ source ∈ sources := by
  obtain ⟨⟨block, member, same, leads⟩, present⟩ := edge
  refine ⟨_, by rw [predecessors_get, if_pos present], ?_⟩
  have kept : block ∈ table.blocks.filter fun block => target ∈ block.successors := by
    simpa [member] using (block_successors_iff block target).mpr leads
  exact same ▸ List.mem_map_of_mem kept

theorem path_predecessor (table : BlockTable) (source target : Label) (path : table.Path source target)
    (different : target ≠ source) :
    ∃ sources, table.predecessors[target]? = some sources ∧ sources ≠ [] := by
  cases path with
  | refl => exact absurd rfl different
  | @tail middle _ _ edge =>
      obtain ⟨sources, listed, among⟩ := edge_predecessor table middle target edge
      exact ⟨sources, listed, List.ne_nil_of_mem among⟩

end MidIR
