import Mathlib.Data.List.InsertIdx
import Mathlib.Data.List.Nodup
import MidIR.BlockTable

set_option autoImplicit false

namespace MidIR

-- Lookup by label and lookup by position are inverse to each other. That no two blocks share a
-- label follows, because the index has one position for each label.
def BlockTable.Indexed (table : BlockTable) : Prop :=
  ∀ (label : Label) (position : Nat),
    table.position? label = some position ↔ table.labels[position]? = some label

theorem labels_length (table : BlockTable) : table.labels.length = table.size := by
  simp [BlockTable.labels, BlockTable.size]

theorem labels_at (table : BlockTable) (position : Nat) (label : Label) :
    table.labels[position]? = some label ↔
      ∃ block, table.blocks[position]? = some block ∧ block.label = label := by
  simp [BlockTable.labels]

theorem label_at (table : BlockTable) (position : Nat) :
    (table.blockAt? position).map Block.label = table.labels[position]? := by
  simp [BlockTable.blockAt?, BlockTable.labels]

theorem contains_position (table : BlockTable) (label : Label) :
    table.contains label = (table.position? label).isSome :=
  Std.ExtHashMap.contains_eq_isSome_getElem?

theorem indexed_labels_nodup (table : BlockTable) (indexed : table.Indexed) : table.labels.Nodup := by
  rw [List.nodup_iff_getElem?_ne_getElem?]
  intro i j before bound same
  have present : table.labels[i]? = some table.labels[i] := List.getElem?_eq_getElem (by omega)
  have first := (indexed _ i).mpr present
  have second := (indexed _ j).mpr (same ▸ present)
  have equal : i = j := Option.some.inj (first.symm.trans second)
  omega

theorem indexed_contains_iff (table : BlockTable) (indexed : table.Indexed) (label : Label) :
    table.contains label = true ↔ label ∈ table.labels := by
  rw [contains_position, Option.isSome_iff_exists, List.mem_iff_getElem?]
  exact exists_congr fun position => indexed label position

theorem indexed_position_bound (table : BlockTable) (indexed : table.Indexed) (label : Label)
    (position : Nat) (found : table.position? label = some position) : position < table.size := by
  have present := (indexed label position).mp found
  rw [← labels_length]
  exact (List.getElem?_eq_some_iff.mp present).1

theorem indexed_position_none_iff (table : BlockTable) (indexed : table.Indexed) (label : Label) :
    table.position? label = none ↔ label ∉ table.labels := by
  rw [← indexed_contains_iff table indexed, contains_position, Bool.not_eq_true, Option.isSome_eq_false_iff,
    Option.isNone_iff_eq_none]

theorem indexed_get_iff (table : BlockTable) (indexed : table.Indexed) (label : Label) (block : Block) :
    table.get? label = some block ↔ block ∈ table.blocks ∧ block.label = label := by
  rw [BlockTable.get?, Option.bind_eq_some_iff]
  constructor
  · intro ⟨position, found, here⟩
    obtain ⟨other, there, same⟩ := (labels_at table position label).mp ((indexed label position).mp found)
    have equal : other = block := Option.some.inj (there.symm.trans here)
    exact ⟨List.mem_of_getElem? here, equal ▸ same⟩
  · intro ⟨member, same⟩
    obtain ⟨position, here⟩ := List.mem_iff_getElem?.mp member
    have found := (indexed label position).mpr ((labels_at table position label).mpr ⟨block, here, same⟩)
    exact ⟨position, found, here⟩

theorem labelled_split (blocks : List Block) (distinct : (blocks.map Block.label).Nodup) (place : Nat)
    (label : Label) (here : (blocks.map Block.label)[place]? = some label) :
    ∃ front block back, blocks = front ++ block :: back ∧ front.length = place ∧ block.label = label ∧
      ∀ other ∈ front ++ back, other.label ≠ label := by
  rw [List.getElem?_map, Option.map_eq_some_iff] at here
  obtain ⟨block, present, rfl⟩ := here
  obtain ⟨inside, value⟩ := List.getElem?_eq_some_iff.mp present
  have split : blocks = blocks.take place ++ block :: blocks.drop (place + 1) := by
    rw [← value, List.getElem_cons_drop, List.take_append_drop]
  refine ⟨_, block, _, split, List.length_take_of_le (Nat.le_of_lt inside), rfl, ?_⟩
  rw [split, List.map_append, List.map_cons, List.nodup_middle, List.nodup_cons, ← List.map_append] at distinct
  intro other member same
  exact distinct.1 (same ▸ List.mem_map_of_mem member)

theorem indexed_index_eq (a b : BlockTable) (indexedA : a.Indexed) (indexedB : b.Indexed)
    (same : a.labels = b.labels) : a.index = b.index := by
  apply Std.ExtHashMap.ext_getElem?
  intro label
  apply Option.ext
  intro position
  exact (indexedA label position).trans (same ▸ (indexedB label position).symm)

theorem indexed_eq_iff (a b : BlockTable) (indexedA : a.Indexed) (indexedB : b.Indexed) :
    a = b ↔ a.blocks = b.blocks := by
  constructor
  · intro same
    rw [same]
  · intro blocks
    have index : a.index = b.index :=
      indexed_index_eq a b indexedA indexedB (congrArg (List.map Block.label) blocks)
    cases a
    cases b
    simp_all

theorem indexed_same_labels (a b : BlockTable) (indexed : a.Indexed) (labels : b.labels = a.labels)
    (index : b.index = a.index) : b.Indexed := by
  intro label position
  rw [labels, BlockTable.position?, index]
  exact indexed label position

theorem empty_indexed : BlockTable.empty.Indexed := by
  intro label position
  simp [BlockTable.empty, BlockTable.labels, BlockTable.position?]

theorem insert_present (block : Block) (table : BlockTable) (place : Nat)
    (here : table.position? block.label = some place) :
    table.insert block = (table.blockAt? place, { table with blocks := table.blocks.set place block }) := by
  simp [BlockTable.insert, here]

theorem insert_present_labels (block : Block) (table : BlockTable) (indexed : table.Indexed) (place : Nat)
    (here : table.position? block.label = some place) : (table.insert block).2.labels = table.labels := by
  obtain ⟨bound, value⟩ := List.getElem?_eq_some_iff.mp ((indexed block.label place).mp here)
  rw [insert_present block table place here]
  simp only [BlockTable.labels, List.map_set]
  exact (congrArg (List.set _ place) value.symm).trans (List.set_getElem_self bound)

theorem insert_absent (block : Block) (table : BlockTable)
    (missing : table.position? block.label = none) :
    table.insert block =
      (none, ⟨table.blocks ++ [block], table.index.insert block.label table.size⟩) := by
  simp [BlockTable.insert, missing]

theorem insert_absent_labels (block : Block) (table : BlockTable)
    (missing : table.position? block.label = none) :
    (table.insert block).2.labels = table.labels ++ [block.label] := by
  simp [insert_absent block table missing, BlockTable.labels]

theorem insert_absent_position (block : Block) (table : BlockTable)
    (missing : table.position? block.label = none) (label : Label) :
    (table.insert block).2.position? label =
      if block.label = label then some table.size else table.position? label := by
  rw [insert_absent block table missing, BlockTable.position?, Std.ExtHashMap.getElem?_insert]
  by_cases same : block.label = label <;> simp [same, BlockTable.position?]

theorem appended_at (labels : List Label) (last label : Label) (position : Nat) :
    (labels ++ [last])[position]? = some label ↔
      labels[position]? = some label ∨ position = labels.length ∧ last = label := by
  rcases Nat.lt_trichotomy position labels.length with inside | rfl | beyond
  · rw [List.getElem?_append_left inside]
    have different : position ≠ labels.length := by omega
    simp [different]
  · simp
  · have outside : ¬ position < labels.length := by omega
    have different : position ≠ labels.length := by omega
    rw [List.getElem?_eq_none (by simp; omega), List.getElem?_eq_none (by omega)]
    simp [different]

-- Replacing a block changes neither the labels nor the index; a block with a new label gets the
-- position behind all others, which no label had before.
theorem insert_indexed (block : Block) (table : BlockTable) (indexed : table.Indexed) :
    (table.insert block).2.Indexed := by
  cases here : table.position? block.label with
  | some place =>
      refine indexed_same_labels table _ indexed (insert_present_labels block table indexed place here) ?_
      rw [insert_present block table place here]
  | none =>
      have absent := (indexed_position_none_iff table indexed block.label).mp here
      intro label position
      rw [insert_absent_labels block table here, insert_absent_position block table here, appended_at,
        labels_length]
      by_cases same : block.label = label
      · have outside : table.labels[position]? ≠ some label := by
          intro found
          exact absent (same ▸ List.mem_of_getElem? found)
        rw [if_pos same, Option.some.injEq]
        simp only [outside, same, and_true, false_or]
        exact eq_comm
      · rw [if_neg same, indexed]
        simp only [same, and_false, or_false]

theorem remove_present (label : Label) (table : BlockTable) (gap : Nat)
    (here : table.position? label = some gap) :
    table.remove label = (table.blockAt? gap, ⟨table.blocks.eraseIdx gap,
      (table.index.erase label).map fun _ other => BlockTable.closeGap gap other⟩) := by
  simp [BlockTable.remove, here]

theorem remove_absent (label : Label) (table : BlockTable) (missing : table.position? label = none) :
    table.remove label = (none, table) := by
  simp [BlockTable.remove, missing]

theorem remove_labels (label : Label) (table : BlockTable) (gap : Nat)
    (here : table.position? label = some gap) :
    (table.remove label).2.labels = table.labels.eraseIdx gap := by
  rw [remove_present label table gap here]
  exact (List.eraseIdx_map Block.label table.blocks gap).symm

theorem remove_position (label : Label) (table : BlockTable) (gap : Nat)
    (here : table.position? label = some gap) (other : Label) :
    (table.remove label).2.position? other =
      if label = other then none else (table.position? other).map (BlockTable.closeGap gap) := by
  rw [remove_present label table gap here, BlockTable.position?, Std.ExtHashMap.getElem?_map,
    Std.ExtHashMap.getElem?_erase]
  by_cases same : label = other <;> simp [same, BlockTable.position?]

theorem close_gap_position (gap position old : Nat) (other : old ≠ gap) :
    BlockTable.closeGap gap old = position ↔ old = if position < gap then position else position + 1 := by
  simp only [BlockTable.closeGap]
  split <;> split <;> omega

theorem remove_indexed (label : Label) (table : BlockTable) (indexed : table.Indexed) :
    (table.remove label).2.Indexed := by
  cases here : table.position? label with
  | none => simpa only [remove_absent label table here] using indexed
  | some gap =>
      intro other position
      have shifted : (table.labels.eraseIdx gap)[position]? =
          table.labels[if position < gap then position else position + 1]? := by
        rw [List.getElem?_eraseIdx]
        split <;> rfl
      rw [remove_labels label table gap here, remove_position label table gap here, shifted, ← indexed]
      by_cases same : label = other
      · subst same
        have elsewhere : gap ≠ if position < gap then position else position + 1 := by split <;> omega
        simp [here, elsewhere]
      · have unlike : ∀ old, table.position? other = some old → old ≠ gap := by
          intro old found equal
          have first := (indexed other old).mp found
          rw [equal, (indexed label gap).mp here] at first
          exact same (Option.some.inj first)
        rw [if_neg same]
        cases found : table.position? other with
        | none => simp
        | some old => simp [close_gap_position gap position old (unlike old found)]

theorem edit_index (label : Label) (change : List Instr → List Instr) (table : BlockTable) :
    (table.edit label change).index = table.index := by
  cases here : table.position? label <;> simp [BlockTable.edit, here]

theorem edit_view {α : Type} (view : Block → α) (label : Label) (change : List Instr → List Instr)
    (table : BlockTable)
    (keeps : ∀ block : Block, view { block with instrs := change block.instrs } = view block) :
    (table.edit label change).blocks.map view = table.blocks.map view := by
  cases here : table.position? label with
  | none => simp [BlockTable.edit, here]
  | some place =>
      simp only [BlockTable.edit, here]
      apply List.ext_getElem?
      intro i
      by_cases same : place = i <;> simp [same, Function.comp_def, keeps]

theorem edit_indexed (label : Label) (change : List Instr → List Instr) (table : BlockTable)
    (indexed : table.Indexed) : (table.edit label change).Indexed :=
  indexed_same_labels table _ indexed (edit_view Block.label label change table fun _ => rfl)
    (edit_index label change table)

theorem edit_all_indexed (change : Label → List Instr → List Instr) (table : BlockTable)
    (indexed : table.Indexed) : (table.editAll change).Indexed := by
  refine indexed_same_labels table _ indexed ?_ rfl
  simp [BlockTable.editAll, BlockTable.labels]

end MidIR
