import MidIR.Body
import MidIR.Proofs.Table.Index

set_option autoImplicit false

namespace MidIR

inductive Edit where
  | insert (block : Block)
  | remove (label : Label)
  | one (label : Label) (change : List Instr → List Instr)
  | all (change : Label → List Instr → List Instr)

def Edit.apply : Edit → BlockTable → BlockTable
  | .insert block, table => (table.insert block).2
  | .remove label, table => (table.remove label).2
  | .one label change, table => table.edit label change
  | .all change, table => table.editAll change

inductive BlockTable.Built : BlockTable → Prop where
  | empty : Built .empty
  | ofList (blocks : List Block) : Built (.ofList blocks)
  | edited (table : BlockTable) (edit : Edit) (previous : Built table) : Built (edit.apply table)

-- A primitive body holds no table that could be out of step.
def Body.Built (body : Body) : Prop := ∀ table, body.payload = .blocks table → table.Built

theorem of_list_body_built (file : String) (place : Location) (varNames : Std.ExtTreeSet String)
    (blocks : List Block) : Body.Built ⟨file, place, varNames, .blocks (.ofList blocks)⟩ := by
  intro table content
  obtain rfl := Payload.blocks.inj content
  exact .ofList blocks

theorem apply_indexed (edit : Edit) (table : BlockTable) (indexed : table.Indexed) :
    (edit.apply table).Indexed := by
  cases edit with
  | insert block => exact insert_indexed block table indexed
  | remove label => exact remove_indexed label table indexed
  | one label change => exact edit_indexed label change table indexed
  | all change => exact edit_all_indexed change table indexed

theorem insert_all_indexed (blocks : List Block) (table : BlockTable) (indexed : table.Indexed) :
    (blocks.foldl (fun table block => (table.insert block).2) table).Indexed := by
  induction blocks generalizing table with
  | nil => exact indexed
  | cons block rest ih => exact ih _ (insert_indexed block table indexed)

theorem of_list_indexed (blocks : List Block) : (BlockTable.ofList blocks).Indexed :=
  insert_all_indexed blocks .empty empty_indexed

theorem insert_all_blocks (blocks : List Block) (table : BlockTable) (indexed : table.Indexed)
    (distinct : (table.labels ++ blocks.map Block.label).Nodup) :
    (blocks.foldl (fun table block => (table.insert block).2) table).blocks = table.blocks ++ blocks := by
  induction blocks generalizing table with
  | nil => simp
  | cons block rest ih =>
      have absent : block.label ∉ table.labels := by
        intro member
        rw [List.map_cons, List.nodup_append] at distinct
        exact distinct.2.2 block.label member block.label List.mem_cons_self rfl
      have missing := (indexed_position_none_iff table indexed block.label).mpr absent
      have grown := insert_absent_labels block table missing
      have later := ih (table.insert block).2 (insert_indexed block table indexed) (by simpa [grown] using distinct)
      rw [List.foldl_cons, later, insert_absent block table missing]
      simp

theorem of_list_blocks (blocks : List Block) (distinct : (blocks.map Block.label).Nodup) :
    (BlockTable.ofList blocks).blocks = blocks :=
  insert_all_blocks blocks .empty empty_indexed distinct

theorem of_list_labels (blocks : List Block) (distinct : (blocks.map Block.label).Nodup) :
    (BlockTable.ofList blocks).labels = blocks.map Block.label := by
  rw [BlockTable.labels, of_list_blocks blocks distinct]

theorem built_indexed (table : BlockTable) (built : table.Built) : table.Indexed := by
  induction built with
  | empty => exact empty_indexed
  | ofList blocks => exact of_list_indexed blocks
  | edited table edit _ ih => exact apply_indexed edit table ih

theorem insert_old (block : Block) (table : BlockTable) :
    (table.insert block).1 = table.get? block.label := by
  cases here : table.position? block.label with
  | none => simp [insert_absent block table here, BlockTable.get?, here]
  | some place => simp [insert_present block table place here, BlockTable.get?, here]

theorem remove_old (label : Label) (table : BlockTable) :
    (table.remove label).1 = table.get? label := by
  cases here : table.position? label with
  | none => simp [remove_absent label table here, BlockTable.get?, here]
  | some gap => simp [remove_present label table gap here, BlockTable.get?, here]

theorem built_table_in_step (table other : BlockTable) (built : table.Built) (otherBuilt : other.Built) :
    table.labels.Nodup ∧
      (∀ label, label ∈ table.index ↔ label ∈ table.labels) ∧
      (∀ (label : Label) (position : Nat), table.index[label]? = some position ↔
        ∃ block, table.blocks[position]? = some block ∧ block.label = label) ∧
      (∀ (label : Label) (position : Nat), table.index[label]? = some position →
        position < table.blocks.length) ∧
      (∀ label ∈ table.labels, ∃ block ∈ table.blocks, block.label = label ∧
        table.get? label = some block ∧ (table.remove label).1 = some block ∧
          ∀ fresh : Block, fresh.label = label → (table.insert fresh).1 = some block) ∧
      (table = other ↔ table.blocks = other.blocks) := by
  have indexed := built_indexed table built
  refine ⟨indexed_labels_nodup table indexed, indexed_contains_iff table indexed, ?_,
    indexed_position_bound table indexed, ?_,
    indexed_eq_iff table other indexed (built_indexed other otherBuilt)⟩
  · intro label position
    rw [← labels_at]
    exact indexed label position
  · intro label member
    obtain ⟨block, present, same⟩ := List.mem_map.mp member
    have found := (indexed_get_iff table indexed label block).mpr ⟨present, same⟩
    refine ⟨block, present, same, found, (remove_old label table).trans found, ?_⟩
    intro fresh named
    rw [insert_old, named]
    exact found

theorem reinserted_block_in_step :
    let table := BlockTable.ofList [⟨.entry, []⟩, ⟨.exit, []⟩]
    let moved := Edit.apply (.insert ⟨.entry, []⟩) (Edit.apply (.remove .entry) table)
    let plain := BlockTable.ofList [⟨.exit, []⟩, ⟨.entry, []⟩]
    moved.Built ∧ plain.Built ∧ moved = plain := by
  intro table moved plain
  have movedBuilt : moved.Built := .edited _ _ (.edited _ _ (.ofList _))
  have plainBuilt : plain.Built := .ofList _
  have blocks : moved.blocks = plain.blocks := by
    simp [moved, plain, table, Edit.apply, BlockTable.ofList, BlockTable.insert, BlockTable.remove,
      BlockTable.empty, BlockTable.position?, BlockTable.closeGap, BlockTable.size, Label.entry, Label.exit,
      Std.ExtHashMap.getElem_insert]
  obtain ⟨-, -, -, -, -, equal⟩ := built_table_in_step moved plain movedBuilt plainBuilt
  exact ⟨movedBuilt, plainBuilt, equal.mpr blocks⟩

end MidIR
