import MidIR.Graph.Reachable
import MidIR.Proofs.Table.Index

set_option autoImplicit false

namespace MidIR

def BlockTable.removeAll (labels : List Label) (table : BlockTable) : BlockTable :=
  labels.foldl (fun left label => (left.remove label).2) table

theorem prune_removes_unreachable (entry : Label) (table : BlockTable) :
    table.prune entry = table.removeAll (table.unreachable entry) := rfl

theorem erase_labelled (blocks : List Block) (distinct : (blocks.map Block.label).Nodup) (gap : Nat)
    (label : Label) (here : (blocks.map Block.label)[gap]? = some label) :
    blocks.eraseIdx gap = blocks.filter fun block => block.label ≠ label := by
  obtain ⟨front, block, back, rfl, rfl, same, elsewhere⟩ := labelled_split blocks distinct gap label here
  have others : ((front ++ back).filter fun block => block.label ≠ label) = front ++ back :=
    List.filter_eq_self.mpr fun other member => decide_eq_true (elsewhere other member)
  rw [List.filter_append] at others
  rw [List.eraseIdx_append_of_length_le (Nat.le_refl _), Nat.sub_self, List.eraseIdx_cons_zero,
    List.filter_append, List.filter_cons_of_neg (by simp [same]), others]

theorem remove_blocks (label : Label) (table : BlockTable) (indexed : table.Indexed) :
    (table.remove label).2.blocks = table.blocks.filter fun block => block.label ≠ label := by
  cases here : table.position? label with
  | none =>
      have absent := (indexed_position_none_iff table indexed label).mp here
      rw [remove_absent label table here]
      refine (List.filter_eq_self.mpr fun block member => decide_eq_true ?_).symm
      exact fun same => absent (same ▸ List.mem_map_of_mem member)
  | some gap =>
      rw [remove_present label table gap here]
      exact erase_labelled table.blocks (indexed_labels_nodup table indexed) gap label ((indexed label gap).mp here)

theorem remove_labels_filter (label : Label) (table : BlockTable) (indexed : table.Indexed) :
    (table.remove label).2.labels = table.labels.filter fun other => other ≠ label := by
  rw [BlockTable.labels, remove_blocks label table indexed, BlockTable.labels, List.filter_map]
  rfl

theorem remove_all_indexed (labels : List Label) (table : BlockTable) (indexed : table.Indexed) :
    (table.removeAll labels).Indexed := by
  induction labels generalizing table with
  | nil => exact indexed
  | cons label rest ih => exact ih (table.remove label).2 (remove_indexed label table indexed)

theorem remove_all_blocks (labels : List Label) (table : BlockTable) (indexed : table.Indexed) :
    (table.removeAll labels).blocks = table.blocks.filter fun block => block.label ∉ labels := by
  induction labels generalizing table with
  | nil => simp [BlockTable.removeAll]
  | cons label rest ih =>
      have later := ih (table.remove label).2 (remove_indexed label table indexed)
      rw [remove_blocks label table indexed, List.filter_filter] at later
      refine Eq.trans later (List.filter_congr fun block _ => ?_)
      simp [Bool.and_comm]

theorem remove_all_same (labels others : List Label) (table : BlockTable) (indexed : table.Indexed)
    (same : ∀ label, label ∈ labels ↔ label ∈ others) : table.removeAll labels = table.removeAll others := by
  refine (indexed_eq_iff _ _ (remove_all_indexed labels table indexed) (remove_all_indexed others table indexed)).mpr ?_
  rw [remove_all_blocks labels table indexed, remove_all_blocks others table indexed]
  simp only [same]

end MidIR
