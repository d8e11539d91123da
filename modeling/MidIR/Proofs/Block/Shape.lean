import MidIR.Check
import MidIR.Proofs.Block.Ending

set_option autoImplicit false

namespace MidIR

theorem early_terminators_length (label : Label) (offset : Nat) (instrs : List Instr) :
    (earlyTerminators label offset instrs).length = instrs.countP Instr.isTerminator := by
  induction instrs generalizing offset with
  | nil => rfl
  | cons instr rest ih =>
      by_cases jump : instr.isTerminator = true <;> simp [earlyTerminators, jump, ih]

theorem early_terminators_nil_iff (label : Label) (offset : Nat) (instrs : List Instr) :
    earlyTerminators label offset instrs = [] ↔ ∀ instr ∈ instrs, ¬ instr.op.IsJump := by
  rw [← List.length_eq_zero_iff, early_terminators_length, List.countP_eq_zero]
  simp only [op_jump_iff, Instr.isTerminator]

theorem idle_shape_problems (exit : Label) (block : Block) (idle : block.Idle) :
    block.shapeProblems exit = block.idleProblems exit := by
  have found := (end_position_none_iff block).mpr idle
  simp only [Block.shapeProblems, found]

theorem ends_shape_problems (exit : Label) (block : Block) (before : List Instr) (last : Instr)
    (markers : List Instr) (ends : block.Ends before last markers) :
    block.shapeProblems exit = earlyTerminators block.label 0 before ++
      if last.isTerminator then [] else [.unterminated block.label last.op.kind] := by
  obtain ⟨position, here⟩ := ends_position block before last markers ends
  have front : block.instrs.take before.length = before := by simp [ends.split]
  simp only [Block.shapeProblems, position, here, front]

theorem idle_problems_length (exit : Label) (block : Block) :
    (block.idleProblems exit).length = if block.label = exit then 0 else 1 := by
  by_cases isExit : block.label = exit
  · simp [Block.idleProblems, isExit]
  · cases last : block.instrs.getLast? <;> simp [Block.idleProblems, isExit, last]

theorem idle_problems_nil_iff (exit : Label) (block : Block) :
    block.idleProblems exit = [] ↔ block.label = exit := by
  rw [← List.length_eq_zero_iff, idle_problems_length]
  by_cases isExit : block.label = exit <;> simp [isExit]

theorem shape_problems_nil_iff (exit : Label) (block : Block) :
    block.shapeProblems exit = [] ↔ block.Closed ∨ block.label = exit ∧ block.Idle := by
  rcases idle_or_ends block with idle | ⟨before, last, markers, ends⟩
  · have unclosed : ¬ block.Closed := by
      intro closed
      obtain ⟨before, last, markers, ends, -, -⟩ := (closed_iff_ends block).mp closed
      exact ends_not_idle block before last markers ends idle
    rw [idle_shape_problems exit block idle, idle_problems_nil_iff]
    simp [idle, unclosed]
  · have busy := ends_not_idle block before last markers ends
    rw [ends_shape_problems exit block before last markers ends, ends_closed_iff block before last markers ends,
      List.append_eq_nil_iff, early_terminators_nil_iff, op_jump_iff]
    by_cases jump : last.op.isTerminator = true <;> simp [busy, jump, Instr.isTerminator]

-- What can be wrong with the shape of a block, said of its instructions.
inductive Block.Fault (exit : Label) (block : Block) : Problem → Prop where
  | empty (nothing : block.instrs = []) (other : block.label ≠ exit) : Fault exit block (.emptyBlock block.label)
  | idle (front : List Instr) (last : Instr) (split : block.instrs = front ++ [last])
      (markers : block.Idle) (other : block.label ≠ exit) :
      Fault exit block (.unterminated block.label last.op.kind)
  | runsOut (before : List Instr) (last : Instr) (markers : List Instr)
      (ends : block.Ends before last markers) (stays : ¬ last.op.IsJump) :
      Fault exit block (.unterminated block.label last.op.kind)
  | early (before : List Instr) (last : Instr) (markers : List Instr) (ends : block.Ends before last markers)
      (position : Nat) (instr : Instr) (here : before[position]? = some instr) (isJump : instr.op.IsJump) :
      Fault exit block (.earlyTerminator block.label position instr.op.kind)

theorem early_terminators_numbered (label : Label) (offset : Nat) (instrs : List Instr) :
    earlyTerminators label offset instrs = (instrs.zipIdx offset).filterMap fun numbered =>
      if numbered.1.isTerminator then some (.earlyTerminator label numbered.2 numbered.1.op.kind) else none := by
  induction instrs generalizing offset with
  | nil => rfl
  | cons instr rest ih =>
      by_cases jump : instr.isTerminator = true <;> simp [earlyTerminators, jump, ih]

theorem early_terminators_iff (label : Label) (instrs : List Instr) (problem : Problem) :
    problem ∈ earlyTerminators label 0 instrs ↔ ∃ position instr, instrs[position]? = some instr ∧
      instr.op.IsJump ∧ .earlyTerminator label position instr.op.kind = problem := by
  rw [early_terminators_numbered, List.mem_filterMap]
  constructor
  · rintro ⟨⟨instr, position⟩, listed, shown⟩
    obtain ⟨jump, same⟩ := Option.ite_none_right_eq_some.mp shown
    refine ⟨position, instr, List.mem_zipIdx_iff_getElem?.mp listed, ?_, Option.some.inj same⟩
    exact (op_jump_iff instr.op).mpr jump
  · rintro ⟨position, instr, here, isJump, same⟩
    refine ⟨(instr, position), List.mem_zipIdx_iff_getElem?.mpr here, ?_⟩
    exact Option.ite_none_right_eq_some.mpr ⟨(op_jump_iff instr.op).mp isJump, congrArg some same⟩

theorem idle_fault_iff (exit : Label) (block : Block) (idle : block.Idle) (problem : Problem) :
    problem ∈ block.idleProblems exit ↔ block.Fault exit problem := by
  constructor
  · intro listed
    by_cases isExit : block.label = exit
    · simp [Block.idleProblems, isExit] at listed
    · cases found : block.instrs.getLast? with
      | none =>
          obtain rfl : problem = .emptyBlock block.label := by simpa [Block.idleProblems, isExit, found] using listed
          exact .empty (List.getLast?_eq_none_iff.mp found) isExit
      | some last =>
          obtain rfl : problem = .unterminated block.label last.op.kind := by
            simpa [Block.idleProblems, isExit, found] using listed
          obtain ⟨front, split⟩ := List.getLast?_eq_some_iff.mp found
          exact .idle front last split idle isExit
  · intro fault
    cases fault with
    | empty nothing other => simp [Block.idleProblems, nothing, other]
    | idle front last split _ other => simp [Block.idleProblems, split, other]
    | runsOut before last markers ends => exact absurd idle (ends_not_idle block before last markers ends)
    | early before last markers ends => exact absurd idle (ends_not_idle block before last markers ends)

theorem ends_fault_iff (exit : Label) (block : Block) (before : List Instr) (last : Instr) (markers : List Instr)
    (ends : block.Ends before last markers) (problem : Problem) :
    problem ∈ block.shapeProblems exit ↔ block.Fault exit problem := by
  rw [ends_shape_problems exit block before last markers ends, List.mem_append, early_terminators_iff]
  constructor
  · rintro (⟨position, instr, here, isJump, rfl⟩ | listed)
    · exact .early before last markers ends position instr here isJump
    · by_cases jump : last.isTerminator = true
      · simp [jump] at listed
      · obtain rfl : problem = .unterminated block.label last.op.kind := by simpa [jump] using listed
        exact .runsOut before last markers ends fun isJump => jump ((op_jump_iff last.op).mp isJump)
  · intro fault
    have busy := ends_not_idle block before last markers ends
    cases fault with
    | empty nothing => exact absurd (by simp [Block.Idle, nothing]) busy
    | idle front final split markers => exact absurd markers busy
    | runsOut front final rest also stays =>
        obtain ⟨-, rfl⟩ := ends_unique block before front last final markers rest ends also
        rw [op_jump_iff] at stays
        exact Or.inr (by simp [Instr.isTerminator, stays])
    | early front final rest also position instr here isJump =>
        obtain ⟨rfl, -⟩ := ends_unique block before front last final markers rest ends also
        exact Or.inl ⟨position, instr, here, isJump, rfl⟩

theorem shape_problems_iff (exit : Label) (block : Block) (problem : Problem) :
    problem ∈ block.shapeProblems exit ↔ block.Fault exit problem := by
  rcases idle_or_ends block with idle | ⟨before, last, markers, ends⟩
  · rw [idle_shape_problems exit block idle, idle_fault_iff exit block idle]
  · exact ends_fault_iff exit block before last markers ends problem

end MidIR
