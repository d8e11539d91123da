import Mathlib.Data.Finset.Card
import Mathlib.Data.List.Induction
import MidIR.Proofs.Table.History

set_option autoImplicit false

namespace MidIR

section Indexed

variable (table : BlockTable) (indexed : table.Indexed)

include indexed

theorem insert_labels (block : Block) :
    (table.insert block).2.labels =
      if block.label ∈ table.labels then table.labels else table.labels ++ [block.label] := by
  cases here : table.position? block.label with
  | none =>
      have absent := (indexed_position_none_iff table indexed block.label).mp here
      rw [insert_absent_labels block table here, if_neg absent]
  | some place =>
      have present := List.mem_of_getElem? ((indexed block.label place).mp here)
      rw [insert_present_labels block table indexed place here, if_pos present]

theorem insert_get (block : Block) (label : Label) :
    (table.insert block).2.get? label = if block.label = label then some block else table.get? label := by
  have bound := indexed_position_bound table indexed
  rw [BlockTable.get?, BlockTable.get?]
  cases here : table.position? block.label with
  | none =>
      rw [insert_absent_position block table here, insert_absent block table here]
      by_cases same : block.label = label
      · rw [if_pos same, if_pos same]
        exact List.getElem?_concat_length
      · rw [if_neg same, if_neg same]
        cases found : table.position? label with
        | none => rfl
        | some place => exact List.getElem?_append_left (bound label place found)
  | some place =>
      rw [insert_present block table place here]
      change (table.position? label).bind _ = _
      by_cases same : block.label = label
      · rw [if_pos same, ← same, here]
        exact List.getElem?_set_self (bound block.label place here)
      · rw [if_neg same]
        cases found : table.position? label with
        | none => rfl
        | some other =>
            have labelled := (indexed block.label place).mp here
            have elsewhere : place ≠ other := by
              intro equal
              rw [equal, (indexed label other).mp found] at labelled
              exact same (Option.some.inj labelled).symm
            exact List.getElem?_set_ne elsewhere

end Indexed

theorem of_list_last (front : List Block) (block : Block) :
    BlockTable.ofList (front ++ [block]) = ((BlockTable.ofList front).insert block).2 := by
  rw [BlockTable.ofList, List.foldl_append]
  rfl

theorem erase_dups_last (front : List Label) (label : Label) :
    (front ++ [label]).eraseDups = if label ∈ front then front.eraseDups else front.eraseDups ++ [label] := by
  rw [List.eraseDups_append]
  by_cases earlier : label ∈ front <;> simp [earlier, List.removeAll, List.eraseDups_cons]

theorem of_list_first_labels (blocks : List Block) :
    (BlockTable.ofList blocks).labels = (blocks.map Block.label).eraseDups := by
  induction blocks using List.reverseRecOn with
  | nil => rfl
  | append_singleton front block ih =>
      have earlier : block.label ∈ (BlockTable.ofList front).labels ↔ block.label ∈ front.map Block.label := by
        rw [ih, List.mem_eraseDups]
      rw [of_list_last, insert_labels _ (of_list_indexed front), List.map_append, List.map_singleton,
        erase_dups_last, ih]
      simp only [← ih, earlier]

theorem of_list_last_block (blocks : List Block) (label : Label) :
    (BlockTable.ofList blocks).get? label = (blocks.filter fun block => block.label = label).getLast? := by
  induction blocks using List.reverseRecOn with
  | nil => simp [BlockTable.ofList, BlockTable.empty, BlockTable.get?, BlockTable.position?]
  | append_singleton front block ih =>
      rw [of_list_last, insert_get _ (of_list_indexed front), ih, List.filter_append]
      by_cases same : block.label = label <;> simp [same]

theorem of_list_again (table : BlockTable) (indexed : table.Indexed) :
    BlockTable.ofList table.blocks = table :=
  (indexed_eq_iff _ table (of_list_indexed table.blocks) indexed).mpr
    (of_list_blocks table.blocks (indexed_labels_nodup table indexed))

theorem of_list_size (blocks : List Block) :
    (BlockTable.ofList blocks).size = (blocks.map Block.label).toFinset.card := by
  have distinct := indexed_labels_nodup _ (of_list_indexed blocks)
  have same : (BlockTable.ofList blocks).labels.toFinset = (blocks.map Block.label).toFinset := by
    ext label
    rw [List.mem_toFinset, List.mem_toFinset, of_list_first_labels, List.mem_eraseDups]
  rw [← same, List.toFinset_card_of_nodup distinct, labels_length]

theorem repeats_collapse (file : String) (place : Location) (varNames : Std.ExtTreeSet String)
    (blocks : List Block) :
    ∃ table, Body.table? ⟨file, place, varNames, .blocks (.ofList blocks)⟩ = some table ∧
      table.labels = (blocks.map Block.label).eraseDups ∧
      (∀ label, table.get? label = (blocks.filter fun block => block.label = label).getLast?) ∧
      table.size = (blocks.map Block.label).toFinset.card ∧
      BlockTable.ofList table.blocks = table :=
  ⟨.ofList blocks, rfl, of_list_first_labels blocks, of_list_last_block blocks, of_list_size blocks,
    of_list_again _ (of_list_indexed blocks)⟩

-- The first label keeps its place in front, though its block comes last.
example :
    (BlockTable.ofList [⟨.entry, []⟩, ⟨.exit, []⟩, ⟨.entry, [⟨.synthetic, .jump .exit⟩]⟩]).blocks =
      [⟨.entry, [⟨.synthetic, .jump .exit⟩]⟩, ⟨.exit, []⟩] := by
  cbv

end MidIR
