import MidIR.Proofs.Block.Bare

set_option autoImplicit false

namespace MidIR

-- An instruction without what it reads.
structure Outline where
  kind : Kind
  place : Location
  target? : Option Temp
  writes : List Operand
  successors : List Label

def Instr.outline (instr : Instr) : Outline where
  kind := instr.op.kind
  place := instr.place
  target? := instr.op.target?
  writes := instr.op.writes
  successors := instr.op.successors

def Block.outline (block : Block) : Label × List Outline := (block.label, block.instrs.map Instr.outline)

theorem outline_kind (a b : Instr) (same : a.outline = b.outline) : a.op.kind = b.op.kind :=
  congrArg Outline.kind same

theorem outline_successors (a b : Instr) (same : a.outline = b.outline) : a.op.successors = b.op.successors :=
  congrArg Outline.successors same

theorem outline_terminator (a b : Instr) (same : a.outline = b.outline) : a.isTerminator = b.isTerminator :=
  congrArg Kind.isTerminator (outline_kind a b same)

theorem outline_marker (a b : Instr) (same : a.outline = b.outline) : a.op.IsMarker ↔ b.op.IsMarker := by
  have markers : a.op.isLifetimeMarker = b.op.isLifetimeMarker :=
    congrArg Kind.isLifetimeMarker (outline_kind a b same)
  rw [op_marker_iff, op_marker_iff, markers]

theorem all_markers_outline (as bs : List Instr) (same : as.map Instr.outline = bs.map Instr.outline)
    (markers : ∀ a ∈ as, a.op.IsMarker) : ∀ b ∈ bs, b.op.IsMarker := by
  intro b member
  have listed : b.outline ∈ as.map Instr.outline := same ▸ List.mem_map_of_mem member
  obtain ⟨a, among, equal⟩ := List.mem_map.mp listed
  exact (outline_marker a b equal).mp (markers a among)

theorem early_terminators_outline (label : Label) (offset : Nat) (as bs : List Instr)
    (same : as.map Instr.outline = bs.map Instr.outline) :
    earlyTerminators label offset as = earlyTerminators label offset bs := by
  induction as generalizing bs offset with
  | nil => rw [List.map_eq_nil_iff.mp same.symm]
  | cons a rest ih =>
      obtain ⟨b, others, rfl, first, later⟩ := List.map_eq_cons_iff.mp same.symm
      rw [earlyTerminators, earlyTerminators, ih (offset + 1) others later.symm,
        outline_terminator a b first.symm, outline_kind a b first.symm]

section Outline

variable (a b : Block) (same : a.outline = b.outline)

include same

theorem same_outline_label : a.label = b.label := congrArg Prod.fst same

theorem same_outline_instrs : a.instrs.map Instr.outline = b.instrs.map Instr.outline := congrArg Prod.snd same

theorem same_outline_idle (idle : a.Idle) : b.Idle :=
  all_markers_outline a.instrs b.instrs (same_outline_instrs a b same) idle

theorem same_outline_ends (before : List Instr) (last : Instr) (markers : List Instr)
    (ends : a.Ends before last markers) :
    ∃ front final rest, b.Ends front final rest ∧ before.map Instr.outline = front.map Instr.outline ∧
      last.outline = final.outline := by
  have split := same_outline_instrs a b same
  rw [ends.split, List.map_append, List.map_cons] at split
  obtain ⟨front, back, splitB, first, second⟩ := List.map_eq_append_iff.mp split.symm
  obtain ⟨final, rest, rfl, here, behind⟩ := List.map_eq_cons_iff.mp second
  refine ⟨front, final, rest, ⟨splitB, ?_, ?_⟩, first.symm, here.symm⟩
  · rw [outline_marker final last here]
    exact ends.control
  · exact all_markers_outline markers rest behind.symm ends.trailing

theorem same_outline_targets : a.targets = b.targets := by
  have listed : ∀ block : Block, block.targets = (block.instrs.map Instr.outline).flatMap Outline.successors := by
    intro block
    rw [List.flatMap_map]
    rfl
  rw [listed, listed, same_outline_instrs a b same]

theorem same_outline_successors : a.successors = b.successors := by
  rcases idle_or_ends a with idle | ⟨before, last, markers, ends⟩
  · rw [idle_successors a idle, idle_successors b (same_outline_idle a b same idle)]
  · obtain ⟨front, final, rest, also, -, here⟩ := same_outline_ends a b same before last markers ends
    rw [ends_successors a before last markers ends, ends_successors b front final rest also,
      outline_successors last final here]

theorem same_outline_idle_problems (exit : Label) : a.idleProblems exit = b.idleProblems exit := by
  have told : ∀ block : Block, block.idleProblems exit =
      if block.label = exit then []
      else match (block.instrs.map Instr.outline).getLast? with
        | none => [.emptyBlock block.label]
        | some last => [.unterminated block.label last.kind] := by
    intro block
    rw [Block.idleProblems, List.getLast?_map]
    cases block.instrs.getLast? <;> rfl
  rw [told, told, same_outline_instrs a b same, same_outline_label a b same]

theorem same_outline_problems (exit : Label) : a.shapeProblems exit = b.shapeProblems exit := by
  rcases idle_or_ends a with idle | ⟨before, last, markers, ends⟩
  · rw [idle_shape_problems exit a idle, idle_shape_problems exit b (same_outline_idle a b same idle),
      same_outline_idle_problems a b same]
  · obtain ⟨front, final, rest, also, earlier, here⟩ := same_outline_ends a b same before last markers ends
    rw [ends_shape_problems exit a before last markers ends, ends_shape_problems exit b front final rest also,
      same_outline_label a b same, early_terminators_outline b.label 0 before front earlier,
      outline_terminator last final here, outline_kind last final here]

end Outline

end MidIR
