import Mathlib.Data.List.InsertIdx
import MidIR.Proofs.Block.Shape

set_option autoImplicit false

namespace MidIR

def Block.targets (block : Block) : List Label := block.instrs.flatMap fun instr => instr.op.successors

def Block.bare (block : Block) : Block :=
  { block with instrs := block.instrs.filter fun instr => !instr.isLifetimeMarker }

theorem marker_dropped (instr : Instr) (isMarker : instr.op.IsMarker) : (!instr.isLifetimeMarker) = false := by
  simpa [Instr.isLifetimeMarker] using (op_marker_iff instr.op).mp isMarker

theorem control_kept (instr : Instr) (control : ¬ instr.op.IsMarker) : (!instr.isLifetimeMarker) = true := by
  simpa [Instr.isLifetimeMarker, op_marker_iff] using control

theorem insert_marker_filter (instrs : List Instr) (position : Nat) (marker : Instr)
    (isMarker : marker.op.IsMarker) :
    (instrs.insertIdx position marker).filter (fun instr => !instr.isLifetimeMarker) =
      instrs.filter fun instr => !instr.isLifetimeMarker := by
  have dropped := marker_dropped marker isMarker
  induction position generalizing instrs with
  | zero => simp [dropped]
  | succ position ih =>
      cases instrs with
      | nil => simp
      | cons instr rest =>
          rw [List.insertIdx_succ_cons, List.filter_cons, List.filter_cons, ih]

theorem insert_marker_bare (block : Block) (position : Nat) (marker : Instr) (isMarker : marker.op.IsMarker) :
    Block.bare { block with instrs := block.instrs.insertIdx position marker } = block.bare := by
  simp only [Block.bare, insert_marker_filter block.instrs position marker isMarker]

theorem bare_idle (block : Block) (idle : block.Idle) : block.bare.instrs = [] := by
  rw [Block.bare, List.filter_eq_nil_iff]
  intro instr member
  simp [marker_dropped instr (idle instr member)]

theorem bare_ends (block : Block) (before : List Instr) (last : Instr) (markers : List Instr)
    (ends : block.Ends before last markers) :
    block.bare.Ends (before.filter fun instr => !instr.isLifetimeMarker) last [] := by
  have gone : markers.filter (fun instr => !instr.isLifetimeMarker) = [] := by
    rw [List.filter_eq_nil_iff]
    intro marker member
    simp [marker_dropped marker (ends.trailing marker member)]
  refine ⟨?_, ends.control, by simp⟩
  simp only [Block.bare, ends.split, List.filter_append, List.filter_cons, control_kept last ends.control, gone, if_true]

theorem bare_successors (block : Block) : block.bare.successors = block.successors := by
  rcases idle_or_ends block with idle | ⟨before, last, markers, ends⟩
  · have nothing : block.bare.Idle := by simp [Block.Idle, bare_idle block idle]
    rw [idle_successors block idle, idle_successors block.bare nothing]
  · rw [ends_successors block before last markers ends,
      ends_successors block.bare _ last [] (bare_ends block before last markers ends)]

theorem bare_collect {α : Type} (collect : Op → List α) (silent : ∀ op : Op, op.IsMarker → collect op = [])
    (block : Block) :
    (block.bare.instrs.flatMap fun instr => collect instr.op) = block.instrs.flatMap fun instr => collect instr.op := by
  rw [Block.bare]
  induction block.instrs with
  | nil => rfl
  | cons instr rest ih =>
      by_cases isMarker : instr.op.IsMarker
      · simp [marker_dropped instr isMarker, silent instr.op isMarker, ih]
      · simp [control_kept instr isMarker, ih]

theorem bare_targets (block : Block) : block.bare.targets = block.targets := by
  refine bare_collect Op.successors ?_ block
  intro op isMarker
  cases isMarker <;> rfl

theorem bare_max_temp (block : Block) : block.bare.maxTemp? = block.maxTemp? := by
  have temps : block.bare.temps = block.temps := by
    refine bare_collect Op.temps ?_ block
    intro op isMarker
    cases isMarker <;> rfl
  rw [Block.maxTemp?, Block.maxTemp?, temps]

theorem bare_jump_count (instrs : List Instr) :
    (instrs.filter fun instr => !instr.isLifetimeMarker).countP Instr.isTerminator =
      instrs.countP Instr.isTerminator := by
  rw [List.countP_filter]
  apply List.countP_congr
  intro instr _
  by_cases jump : instr.isTerminator = true
  · have kept := control_kept instr (jump_not_marker instr.op ((op_jump_iff instr.op).mpr jump))
    simp [jump, kept]
  · simp [jump]

-- Without its markers an idle block is empty: another problem, but again one.
theorem bare_problem_count (exit : Label) (block : Block) :
    (block.bare.shapeProblems exit).length = (block.shapeProblems exit).length := by
  rcases idle_or_ends block with idle | ⟨before, last, markers, ends⟩
  · have nothing : block.bare.Idle := by simp [Block.Idle, bare_idle block idle]
    rw [idle_shape_problems exit block idle, idle_shape_problems exit block.bare nothing,
      idle_problems_length, idle_problems_length]
    rfl
  · rw [ends_shape_problems exit block before last markers ends,
      ends_shape_problems exit block.bare _ last [] (bare_ends block before last markers ends),
      List.length_append, List.length_append, early_terminators_length, early_terminators_length,
      bare_jump_count]
    rfl

end MidIR
