import MidIR.Block

set_option autoImplicit false

namespace MidIR

inductive Op.IsJump : Op → Prop where
  | jump (target : Label) : IsJump (.jump target)
  | branch (cond : Operand) (onTrue onFalse : Label) : IsJump (.branch cond onTrue onFalse)
  | branchNone (arg : Operand) (onNone onSome : Label) : IsJump (.branchNone arg onNone onSome)

inductive Op.IsMarker : Op → Prop where
  | liveStart (name : String) (type : ResolvedTypeKey) : IsMarker (.liveStart name type)
  | liveEnd (name : String) : IsMarker (.liveEnd name)

inductive Op.Names : Op → Label → Prop where
  | target (target : Label) : Names (.jump target) target
  | onTrue (cond : Operand) (onTrue onFalse : Label) : Names (.branch cond onTrue onFalse) onTrue
  | onFalse (cond : Operand) (onTrue onFalse : Label) : Names (.branch cond onTrue onFalse) onFalse
  | onNone (arg : Operand) (onNone onSome : Label) : Names (.branchNone arg onNone onSome) onNone
  | onSome (arg : Operand) (onNone onSome : Label) : Names (.branchNone arg onNone onSome) onSome

theorem op_jump_iff (op : Op) : op.IsJump ↔ op.isTerminator = true := by
  constructor
  · intro jump
    cases jump <;> rfl
  · intro terminator
    cases op with
    | assign target value => simp [Op.isTerminator, Op.kind, value_not_terminator] at terminator
    | jump target => exact .jump target
    | branch cond onTrue onFalse => exact .branch cond onTrue onFalse
    | branchNone arg onNone onSome => exact .branchNone arg onNone onSome
    | _ => cases terminator

theorem op_marker_iff (op : Op) : op.IsMarker ↔ op.isLifetimeMarker = true := by
  constructor
  · intro marker
    cases marker <;> rfl
  · intro lifetime
    cases op with
    | assign target value => simp [Op.isLifetimeMarker, Op.kind, value_not_marker] at lifetime
    | liveStart name type => exact .liveStart name type
    | liveEnd name => exact .liveEnd name
    | _ => cases lifetime

theorem op_names_iff (op : Op) (label : Label) : op.Names label ↔ label ∈ op.successors := by
  constructor
  · intro names
    cases names <;> simp [Op.successors]
  · intro member
    cases op with
    | jump target =>
        obtain rfl : label = target := by simpa [Op.successors] using member
        exact .target label
    | branch cond onTrue onFalse =>
        have either : label = onTrue ∨ label = onFalse := by simpa [Op.successors] using member
        rcases either with rfl | rfl
        · exact .onTrue cond label onFalse
        · exact .onFalse cond onTrue label
    | branchNone arg onNone onSome =>
        have either : label = onNone ∨ label = onSome := by simpa [Op.successors] using member
        rcases either with rfl | rfl
        · exact .onNone arg label onSome
        · exact .onSome arg onNone label
    | _ => simp [Op.successors] at member

theorem jump_not_marker (op : Op) (jump : op.IsJump) : ¬ op.IsMarker := by
  intro marker
  cases jump <;> cases marker

theorem jump_names (op : Op) (jump : op.IsJump) : ∃ label, op.Names label := by
  cases jump with
  | jump target => exact ⟨target, .target target⟩
  | branch cond onTrue onFalse => exact ⟨onTrue, .onTrue cond onTrue onFalse⟩
  | branchNone arg onNone onSome => exact ⟨onNone, .onNone arg onNone onSome⟩

theorem named_jump (op : Op) (label : Label) (names : op.Names label) : op.IsJump := by
  cases names with
  | target => exact .jump label
  | onTrue cond _ onFalse => exact .branch cond label onFalse
  | onFalse cond onTrue => exact .branch cond onTrue label
  | onNone arg _ onSome => exact .branchNone arg label onSome
  | onSome arg onNone => exact .branchNone arg onNone label

-- `last` is the last instruction that is no marker.
structure Block.Ends (block : Block) (before : List Instr) (last : Instr) (markers : List Instr) : Prop where
  split : block.instrs = before ++ last :: markers
  control : ¬ last.op.IsMarker
  trailing : ∀ marker ∈ markers, marker.op.IsMarker

def Block.Idle (block : Block) : Prop := ∀ instr ∈ block.instrs, instr.op.IsMarker

-- One jump, behind all instructions but markers.
def Block.Closed (block : Block) : Prop :=
  ∃ before jump markers, block.instrs = before ++ jump :: markers ∧ jump.op.IsJump ∧
    (∀ marker ∈ markers, marker.op.IsMarker) ∧ ∀ instr ∈ before, ¬ instr.op.IsJump

def Block.Leads (block : Block) (target : Label) : Prop :=
  ∃ before last markers, block.instrs = before ++ last :: markers ∧
    (∀ marker ∈ markers, marker.op.IsMarker) ∧ last.op.Names target

theorem end_position_some_iff (block : Block) (position : Nat) :
    block.endPosition? = some position ↔
      ∃ before last markers, block.Ends before last markers ∧ before.length = position := by
  rw [Block.endPosition?, last_position_some_iff]
  constructor
  · intro ⟨before, last, markers, split, length, control, trailing⟩
    refine ⟨before, last, markers, ⟨split, ?_, ?_⟩, length⟩
    · simpa [op_marker_iff, Instr.isLifetimeMarker] using control
    · simpa [op_marker_iff, Instr.isLifetimeMarker] using trailing
  · intro ⟨before, last, markers, ⟨split, control, trailing⟩, length⟩
    refine ⟨before, last, markers, split, length, ?_, ?_⟩
    · simpa [op_marker_iff, Instr.isLifetimeMarker] using control
    · simpa [op_marker_iff, Instr.isLifetimeMarker] using trailing

theorem end_position_none_iff (block : Block) : block.endPosition? = none ↔ block.Idle := by
  rw [Block.endPosition?, last_position_none_iff]
  simp [Block.Idle, op_marker_iff, Instr.isLifetimeMarker]

theorem ends_position (block : Block) (before : List Instr) (last : Instr) (markers : List Instr)
    (ends : block.Ends before last markers) :
    block.endPosition? = some before.length ∧ block.instrs[before.length]? = some last :=
  ⟨(end_position_some_iff block before.length).mpr ⟨before, last, markers, ends, rfl⟩,
    by simp [ends.split]⟩

theorem idle_or_ends (block : Block) :
    block.Idle ∨ ∃ before last markers, block.Ends before last markers := by
  cases found : block.endPosition? with
  | none => exact Or.inl ((end_position_none_iff block).mp found)
  | some position =>
      obtain ⟨before, last, markers, ends, _⟩ := (end_position_some_iff block position).mp found
      exact Or.inr ⟨before, last, markers, ends⟩

theorem ends_unique (block : Block) (before other : List Instr) (last final : Instr)
    (markers trailing : List Instr) (ends : block.Ends before last markers)
    (also : block.Ends other final trailing) : before = other ∧ last = final := by
  have position := (ends_position block before last markers ends).1
  have again := (ends_position block other final trailing also).1
  have length : before.length = other.length := Option.some.inj (position.symm.trans again)
  obtain ⟨front, back⟩ := List.append_inj (ends.split.symm.trans also.split) length
  exact ⟨front, (List.cons_eq_cons.mp back).1⟩

theorem closed_iff_ends (block : Block) :
    block.Closed ↔ ∃ before last markers, block.Ends before last markers ∧ last.op.IsJump ∧
      ∀ instr ∈ before, ¬ instr.op.IsJump := by
  constructor
  · intro ⟨before, jump, markers, split, isJump, trailing, calm⟩
    exact ⟨before, jump, markers, ⟨split, jump_not_marker jump.op isJump, trailing⟩, isJump, calm⟩
  · intro ⟨before, last, markers, ends, isJump, calm⟩
    exact ⟨before, last, markers, ends.split, isJump, ends.trailing, calm⟩

theorem ends_not_idle (block : Block) (before : List Instr) (last : Instr) (markers : List Instr)
    (ends : block.Ends before last markers) : ¬ block.Idle :=
  fun idle => ends.control (idle last (by simp [ends.split]))

theorem ends_closed_iff (block : Block) (before : List Instr) (last : Instr) (markers : List Instr)
    (ends : block.Ends before last markers) :
    block.Closed ↔ last.op.IsJump ∧ ∀ instr ∈ before, ¬ instr.op.IsJump := by
  rw [closed_iff_ends]
  constructor
  · intro ⟨other, final, rest, also, isJump, calm⟩
    obtain ⟨rfl, rfl⟩ := ends_unique block before other last final markers rest ends also
    exact ⟨isJump, calm⟩
  · intro ⟨isJump, calm⟩
    exact ⟨before, last, markers, ends, isJump, calm⟩

-- With no jump in front and none among the markers, a jump can only be the end.
theorem ends_jump_position (block : Block) (before : List Instr) (last : Instr) (markers : List Instr)
    (ends : block.Ends before last markers) (calm : ∀ instr ∈ before, ¬ instr.op.IsJump)
    (position : Nat) (instr : Instr) (here : block.instrs[position]? = some instr) (isJump : instr.op.IsJump) :
    position = before.length := by
  rw [ends.split] at here
  rcases Nat.lt_trichotomy position before.length with earlier | same | later
  · rw [List.getElem?_append_left earlier] at here
    exact absurd isJump (calm instr (List.mem_of_getElem? here))
  · exact same
  · obtain ⟨offset, rfl⟩ := Nat.exists_eq_add_of_lt later
    rw [List.getElem?_append_right (by omega), Nat.add_assoc, Nat.add_sub_cancel_left, List.getElem?_cons_succ] at here
    exact absurd (ends.trailing instr (List.mem_of_getElem? here)) (jump_not_marker instr.op isJump)

theorem ends_terminator (block : Block) (before : List Instr) (last : Instr) (markers : List Instr)
    (ends : block.Ends before last markers) :
    block.terminator? = if last.isTerminator then some last else none := by
  obtain ⟨position, here⟩ := ends_position block before last markers ends
  rw [Block.terminator?, position, Option.bind_some, here]
  rfl

theorem ends_successors (block : Block) (before : List Instr) (last : Instr) (markers : List Instr)
    (ends : block.Ends before last markers) : block.successors = last.op.successors := by
  rw [Block.successors, ends_terminator block before last markers ends]
  by_cases terminator : last.isTerminator = true
  · rw [if_pos terminator]
  · rw [if_neg terminator]
    exact (Classical.not_not.mp fun some => terminator ((op_terminator_iff last.op).mpr some)).symm

theorem idle_successors (block : Block) (idle : block.Idle) : block.successors = [] := by
  simp [Block.successors, Block.terminator?, (end_position_none_iff block).mpr idle]

theorem op_successors_few (op : Op) : op.successors.length ≤ 2 := by
  cases op <;> simp [Op.successors]

theorem block_successors_few (block : Block) : block.successors.length ≤ 2 := by
  rw [Block.successors]
  cases block.terminator? with
  | none => exact Nat.zero_le 2
  | some instr => exact op_successors_few instr.op

theorem block_successors_iff (block : Block) (target : Label) :
    target ∈ block.successors ↔ block.Leads target := by
  rcases idle_or_ends block with idle | ⟨before, last, markers, ends⟩
  · rw [idle_successors block idle]
    constructor
    · intro member
      simp at member
    · rintro ⟨before, last, markers, split, -, names⟩
      have marker := idle last (by simp [split])
      exact absurd marker (jump_not_marker last.op (named_jump last.op target names))
  · rw [ends_successors block before last markers ends, ← op_names_iff]
    constructor
    · intro names
      exact ⟨before, last, markers, ends.split, ends.trailing, names⟩
    · intro ⟨other, final, rest, split, trailing, names⟩
      have control := jump_not_marker final.op (named_jump final.op target names)
      obtain ⟨-, rfl⟩ := ends_unique block before other last final markers rest ends ⟨split, control, trailing⟩
      exact names

end MidIR
