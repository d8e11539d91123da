import MidIR.Proofs.Block.Bare

set_option autoImplicit false

namespace MidIR

def Op.relabel (f : Label → Label) : Op → Op
  | .jump target => .jump (f target)
  | .branch cond onTrue onFalse => .branch cond (f onTrue) (f onFalse)
  | .branchNone arg onNone onSome => .branchNone arg (f onNone) (f onSome)
  | op => op

def Instr.relabel (f : Label → Label) (instr : Instr) : Instr := { instr with op := instr.op.relabel f }

def Block.relabel (f : Label → Label) (block : Block) : Block where
  label := f block.label
  instrs := block.instrs.map (Instr.relabel f)

def Problem.relabel (f : Label → Label) : Problem → Problem
  | .primitiveBody file => .primitiveBody file
  | .missingEntry label => .missingEntry (f label)
  | .missingExit label => .missingExit (f label)
  | .emptyBlock label => .emptyBlock (f label)
  | .unterminated label last => .unterminated (f label) last
  | .earlyTerminator label position kind => .earlyTerminator (f label) position kind
  | .danglingTarget label target => .danglingTarget (f label) (f target)
  | .unreachable label entry => .unreachable (f label) (f entry)

theorem relabel_kind (f : Label → Label) (instr : Instr) : (instr.relabel f).op.kind = instr.op.kind := by
  obtain ⟨place, op⟩ := instr
  cases op <;> rfl

theorem relabel_op_successors (f : Label → Label) (instr : Instr) :
    (instr.relabel f).op.successors = instr.op.successors.map f := by
  obtain ⟨place, op⟩ := instr
  cases op <;> rfl

theorem relabel_jump (f : Label → Label) (instr : Instr) : (instr.relabel f).isTerminator = instr.isTerminator :=
  congrArg Kind.isTerminator (relabel_kind f instr)

theorem relabel_marker (f : Label → Label) (instr : Instr) : (instr.relabel f).op.IsMarker ↔ instr.op.IsMarker := by
  have same : (instr.relabel f).op.isLifetimeMarker = instr.op.isLifetimeMarker :=
    congrArg Kind.isLifetimeMarker (relabel_kind f instr)
  rw [op_marker_iff, op_marker_iff, same]

theorem relabel_early_terminators (f : Label → Label) (label : Label) (offset : Nat) (instrs : List Instr) :
    earlyTerminators (f label) offset (instrs.map (Instr.relabel f)) =
      (earlyTerminators label offset instrs).map (Problem.relabel f) := by
  induction instrs generalizing offset with
  | nil => rfl
  | cons instr rest ih =>
      rw [List.map_cons, earlyTerminators, earlyTerminators, ih, relabel_jump, relabel_kind]
      split_ifs <;> rfl

section Block

variable (f : Label → Label) (block : Block)

theorem relabel_idle (idle : block.Idle) : (block.relabel f).Idle := by
  intro instr member
  obtain ⟨original, among, rfl⟩ := List.mem_map.mp member
  exact (relabel_marker f original).mpr (idle original among)

theorem relabel_ends (before : List Instr) (last : Instr) (markers : List Instr)
    (ends : block.Ends before last markers) :
    (block.relabel f).Ends (before.map (Instr.relabel f)) (last.relabel f) (markers.map (Instr.relabel f)) := by
  refine ⟨?_, (relabel_marker f last).not.mpr ends.control, ?_⟩
  · simp only [Block.relabel, ends.split, List.map_append, List.map_cons]
  · intro marker member
    obtain ⟨original, among, rfl⟩ := List.mem_map.mp member
    exact (relabel_marker f original).mpr (ends.trailing original among)

theorem relabel_successors : (block.relabel f).successors = block.successors.map f := by
  rcases idle_or_ends block with idle | ⟨before, last, markers, ends⟩
  · rw [idle_successors block idle, idle_successors _ (relabel_idle f block idle)]
    rfl
  · rw [ends_successors block before last markers ends, ends_successors _ _ _ _ (relabel_ends f block before last markers ends),
      relabel_op_successors]

theorem relabel_targets : (block.relabel f).targets = block.targets.map f := by
  simp only [Block.targets, Block.relabel, List.flatMap_map, List.map_flatMap, relabel_op_successors]

theorem relabel_idle_problems (exit : Label) (apart : f block.label = f exit → block.label = exit) :
    (block.relabel f).idleProblems (f exit) = (block.idleProblems exit).map (Problem.relabel f) := by
  have same : (block.relabel f).label = f exit ↔ block.label = exit := ⟨apart, congrArg f⟩
  by_cases here : block.label = exit
  · rw [Block.idleProblems, Block.idleProblems, if_pos (same.mpr here), if_pos here]
    rfl
  · rw [Block.idleProblems, Block.idleProblems, if_neg (same.not.mpr here), if_neg here, Block.relabel, List.getLast?_map]
    cases block.instrs.getLast? with
    | none => rfl
    | some last => exact congrArg (fun kind => [Problem.unterminated _ kind]) (relabel_kind f last)

theorem relabel_shape_problems (exit : Label) (apart : f block.label = f exit → block.label = exit) :
    (block.relabel f).shapeProblems (f exit) = (block.shapeProblems exit).map (Problem.relabel f) := by
  rcases idle_or_ends block with idle | ⟨before, last, markers, ends⟩
  · rw [idle_shape_problems exit block idle, idle_shape_problems _ _ (relabel_idle f block idle),
      relabel_idle_problems f block exit apart]
  · rw [ends_shape_problems exit block before last markers ends,
      ends_shape_problems _ _ _ _ _ (relabel_ends f block before last markers ends), List.map_append, relabel_jump, relabel_kind]
    refine congrArg₂ (· ++ ·) (relabel_early_terminators f block.label 0 before) ?_
    split_ifs <;> rfl

end Block

end MidIR
