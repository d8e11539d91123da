import MidIR.Proofs.Table.History
import MidIR.Proofs.Table.Removal

set_option autoImplicit false

namespace MidIR

inductive Question where
  | get (label : Label)
  | contains (label : Label)
  | position (label : Label)
  | blockAt (position : Nat)
  | labels
  | size
  | blocks

inductive Call where
  | edit (change : Edit)
  | ask (question : Question)

inductive Answer where
  | block (found : Option Block)
  | flag (holds : Bool)
  | position (found : Option Nat)
  | size (count : Nat)
  | labels (listed : List Label)
  | instrs (found : Option (List Instr))
  | parts (listed : List (Label × List Instr))
  | blocks (listed : List Block)
deriving DecidableEq

-- What is handed out of a block for editing. No two parts of a table have one label, so whatever a
-- caller writes into them on one pass, with any state of its own, is a function of the label.
def Block.part (block : Block) : Label × List Instr := (block.label, block.instrs)

def Edit.answer : Edit → BlockTable → Answer
  | .insert block, table => .block (table.insert block).1
  | .remove label, table => .block (table.remove label).1
  | .one label _, table => .instrs ((table.get? label).map Block.instrs)
  | .all _, table => .parts (table.blocks.map Block.part)

def Question.answer : Question → BlockTable → Answer
  | .get label, table => .block (table.get? label)
  | .contains label, table => .flag (table.contains label)
  | .position label, table => .position (table.position? label)
  | .blockAt place, table => .block (table.blockAt? place)
  | .labels, table => .labels table.labels
  | .size, table => .size table.size
  | .blocks, table => .blocks table.blocks

def Call.onTable : Call → BlockTable → Answer × BlockTable
  | .edit change, table => (change.answer table, change.apply table)
  | .ask question, table => (question.answer table, table)

def findBlock? (label : Label) (held : List Block) : Option Block :=
  held.find? fun block => block.label = label

def changeBlock (label : Label) (change : Block → Block) (held : List Block) : List Block :=
  held.map fun block => if block.label = label then change block else block

def Edit.onList : Edit → List Block → Answer × List Block
  | .insert block, held =>
      match findBlock? block.label held with
      | some old => (.block (some old), changeBlock block.label (fun _ => block) held)
      | none => (.block none, held ++ [block])
  | .remove label, held =>
      (.block (findBlock? label held), held.filter fun block => block.label ≠ label)
  | .one label change, held =>
      (.instrs ((findBlock? label held).map Block.instrs),
        changeBlock label (fun block => { block with instrs := change block.instrs }) held)
  | .all change, held =>
      (.parts (held.map Block.part),
        held.map fun block => { block with instrs := change block.label block.instrs })

def Question.onList : Question → List Block → Answer
  | .get label, held => .block (findBlock? label held)
  | .contains label, held => .flag (held.any fun block => block.label = label)
  | .position label, held => .position (held.findIdx? fun block => block.label = label)
  | .blockAt place, held => .block held[place]?
  | .labels, held => .labels (held.map Block.label)
  | .size, held => .size held.length
  | .blocks, held => .blocks held

def Call.onList : Call → List Block → Answer × List Block
  | .edit change, held => change.onList held
  | .ask question, held => (question.onList held, held)

def runCalls {σ : Type} (perform : Call → σ → Answer × σ) : List Call → σ → List Answer × σ
  | [], state => ([], state)
  | call :: rest, state =>
      let (answer, next) := perform call state
      let (answers, last) := runCalls perform rest next
      (answer :: answers, last)

theorem find_block_some (label : Label) (held : List Block) (block : Block)
    (found : findBlock? label held = some block) : block ∈ held ∧ block.label = label :=
  ⟨List.mem_of_find?_eq_some found, by simpa using List.find?_some found⟩

theorem find_block_none_iff (label : Label) (held : List Block) :
    findBlock? label held = none ↔ label ∉ held.map Block.label := by
  simp [findBlock?]

theorem change_block_absent (label : Label) (change : Block → Block) (held : List Block)
    (absent : ∀ block ∈ held, block.label ≠ label) : changeBlock label change held = held := by
  calc
    changeBlock label change held = held.map fun block => block :=
      List.map_congr_left fun block member => if_neg (absent block member)
    _ = held := List.map_id' held

theorem modify_labelled (held : List Block) (distinct : (held.map Block.label).Nodup) (place : Nat)
    (label : Label) (here : (held.map Block.label)[place]? = some label) (change : Block → Block) :
    held.modify place change = changeBlock label change held := by
  obtain ⟨front, block, back, rfl, rfl, same, elsewhere⟩ := labelled_split held distinct place label here
  have first := change_block_absent label change front fun other member =>
    elsewhere other (List.mem_append_left back member)
  have last := change_block_absent label change back fun other member =>
    elsewhere other (List.mem_append_right front member)
  calc
    (front ++ block :: back).modify front.length change = front ++ change block :: back := by
      rw [List.modify_eq_take_cons_drop (by simp)]
      simp
    _ = changeBlock label change front ++ change block :: changeBlock label change back := by rw [first, last]
    _ = changeBlock label change (front ++ block :: back) := by simp [changeBlock, same]

section Indexed

variable (table : BlockTable) (indexed : table.Indexed)

include indexed

theorem get_find_block (label : Label) : table.get? label = findBlock? label table.blocks := by
  cases found : findBlock? label table.blocks with
  | none =>
      have absent := (find_block_none_iff label table.blocks).mp found
      rw [BlockTable.get?, (indexed_position_none_iff table indexed label).mpr absent, Option.bind_none]
  | some block =>
      exact (indexed_get_iff table indexed label block).mpr (find_block_some label table.blocks block found)

theorem contains_any (label : Label) :
    table.contains label = table.blocks.any fun block => block.label = label := by
  rw [Bool.eq_iff_iff, indexed_contains_iff table indexed]
  simp [BlockTable.labels]

theorem position_find (label : Label) :
    table.position? label = table.blocks.findIdx? fun block => block.label = label := by
  cases found : table.blocks.findIdx? fun block => block.label = label with
  | none =>
      rw [indexed_position_none_iff table indexed]
      simpa [BlockTable.labels] using found
  | some place =>
      obtain ⟨inside, here, -⟩ := List.findIdx?_eq_some_iff_getElem.mp found
      rw [indexed, labels_at]
      exact ⟨_, List.getElem?_eq_getElem inside, by simpa using here⟩

theorem question_on_list (question : Question) : question.answer table = question.onList table.blocks := by
  cases question with
  | get label => exact congrArg Answer.block (get_find_block table indexed label)
  | contains label => exact congrArg Answer.flag (contains_any table indexed label)
  | position label => exact congrArg Answer.position (position_find table indexed label)
  | blockAt place => rfl
  | labels => rfl
  | size => rfl
  | blocks => rfl

theorem insert_on_list (block : Block) :
    ((Edit.insert block).answer table, (table.insert block).2.blocks) =
      (Edit.insert block).onList table.blocks := by
  rw [Edit.answer, Edit.onList, insert_old, ← get_find_block table indexed]
  cases here : table.position? block.label with
  | none =>
      have missing : table.get? block.label = none := by rw [BlockTable.get?, here, Option.bind_none]
      rw [insert_absent block table here, missing]
  | some place =>
      have labelled := (indexed block.label place).mp here
      obtain ⟨old, present, same⟩ := (labels_at table place block.label).mp labelled
      have found := (indexed_get_iff table indexed block.label old).mpr ⟨List.mem_of_getElem? present, same⟩
      rw [insert_present block table place here, found, List.set_eq_modify,
        modify_labelled table.blocks (indexed_labels_nodup table indexed) place block.label labelled]

theorem remove_on_list (label : Label) :
    ((Edit.remove label).answer table, (table.remove label).2.blocks) =
      (Edit.remove label).onList table.blocks := by
  rw [Edit.answer, remove_old, get_find_block table indexed, remove_blocks label table indexed]
  rfl

theorem edit_blocks (label : Label) (change : List Instr → List Instr) :
    (table.edit label change).blocks =
      changeBlock label (fun block => { block with instrs := change block.instrs }) table.blocks := by
  cases here : table.position? label with
  | none =>
      have absent := (indexed_position_none_iff table indexed label).mp here
      simp only [BlockTable.edit, here]
      refine (change_block_absent label _ table.blocks fun block member same => ?_).symm
      exact absent (same ▸ List.mem_map_of_mem member)
  | some place =>
      simp only [BlockTable.edit, here]
      exact modify_labelled table.blocks (indexed_labels_nodup table indexed) place label
        ((indexed label place).mp here) _

theorem edit_on_list (change : Edit) :
    (change.answer table, (change.apply table).blocks) = change.onList table.blocks := by
  cases change with
  | insert block => exact insert_on_list table indexed block
  | remove label => exact remove_on_list table indexed label
  | one label change =>
      rw [Edit.answer, Edit.apply, edit_blocks table indexed, get_find_block table indexed]
      rfl
  | all change => rfl

theorem call_on_list (call : Call) :
    (call.onTable table).1 = (call.onList table.blocks).1 ∧
      (call.onTable table).2.blocks = (call.onList table.blocks).2 ∧ (call.onTable table).2.Indexed := by
  cases call with
  | edit change =>
      have same := edit_on_list table indexed change
      exact ⟨congrArg Prod.fst same, congrArg Prod.snd same, apply_indexed change table indexed⟩
  | ask question => exact ⟨question_on_list table indexed question, rfl, indexed⟩

end Indexed

theorem run_on_list (calls : List Call) (table : BlockTable) (indexed : table.Indexed) :
    (runCalls Call.onTable calls table).1 = (runCalls Call.onList calls table.blocks).1 ∧
      (runCalls Call.onTable calls table).2.blocks = (runCalls Call.onList calls table.blocks).2 := by
  induction calls generalizing table with
  | nil => exact ⟨rfl, rfl⟩
  | cons call rest ih =>
      obtain ⟨answer, held, still⟩ := call_on_list table indexed call
      obtain ⟨answers, last⟩ := ih (call.onTable table).2 still
      rw [held] at answers last
      exact ⟨congrArg₂ List.cons answer answers, last⟩

theorem table_answers_as_list (calls : List Call) :
    (runCalls Call.onTable calls .empty).1 = (runCalls Call.onList calls []).1 ∧
      (runCalls Call.onTable calls .empty).2.blocks = (runCalls Call.onList calls []).2 :=
  run_on_list calls .empty empty_indexed

-- A block that is replaced stays where it was; one that is removed and put back comes last.
example :
    (runCalls Call.onList
      [.edit (.insert ⟨.entry, []⟩), .edit (.insert ⟨.exit, []⟩), .edit (.insert ⟨.entry, []⟩), .ask .labels,
        .edit (.remove .entry), .edit (.insert ⟨.entry, []⟩), .ask .labels] []).1 =
      [.block none, .block none, .block (some ⟨.entry, []⟩), .labels [.entry, .exit],
        .block (some ⟨.entry, []⟩), .block none, .labels [.exit, .entry]] := by
  decide

end MidIR
