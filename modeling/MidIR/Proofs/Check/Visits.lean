import MidIR.Proofs.Block.Outline
import MidIR.Proofs.Graph.Flow
import MidIR.Proofs.Op.Held
import MidIR.Proofs.Table.Index

set_option autoImplicit false

namespace MidIR

def Instr.visited {σ : Type} (visit : Operand → StateM σ Operand) (state : σ) (instr : Instr) : Instr :=
  { instr with op := ((instr.op.visitReads visit).run state).1 }

-- The bodies that visits lead to, one instruction after the other. Each visit has a visitor and a
-- state of its own: a visitor that carries its state on from one instruction to the next, through
-- any of them and in any order, is one case, and a substitution throughout the table another.
inductive Body.Revised (body : Body) : Body → Prop where
  | plain : Revised body body
  | visit (revised : Body) (table : BlockTable) (label : Label) (position : Nat) {σ : Type}
      (visit : Operand → StateM σ Operand) (state : σ)
      (previous : Revised body revised) (content : revised.payload = .blocks table) :
      Revised body
        { revised with
          payload := .blocks (table.edit label fun instrs => instrs.modify position (Instr.visited visit state)) }
  | substitute (revised : Body) (table : BlockTable) (old new : Operand)
      (previous : Revised body revised) (content : revised.payload = .blocks table) :
      Revised body { revised with payload := .blocks (table.substitute old new).1 }

structure BlockTable.SameOutline (a b : BlockTable) : Prop where
  index : a.index = b.index
  outlines : a.blocks.map Block.outline = b.blocks.map Block.outline

theorem visited_outline {σ : Type} (visit : Operand → StateM σ Operand) (state : σ) (instr : Instr) :
    (instr.visited visit state).outline = instr.outline := by
  obtain ⟨args, filled⟩ : ∃ args, ((instr.op.visitReads visit).run state).1 = instr.op.refill args := by
    rw [op_visit]
    exact ⟨_, rfl⟩
  simp only [Instr.visited, filled, Instr.outline, op_refill_kind, op_refill_target, op_refill_writes,
    op_refill_successors]

theorem substitute_visited (old new : Operand) (instr : Instr) :
    (instr.substitute old new).1 = instr.visited (replaceAndCount old new) 0 := rfl

theorem edit_visited_outline {σ : Type} (visit : Operand → StateM σ Operand) (state : σ) (label : Label)
    (position : Nat) (table : BlockTable) :
    (table.edit label fun instrs => instrs.modify position (Instr.visited visit state)).SameOutline table := by
  refine ⟨edit_index label _ table, edit_view Block.outline label _ table ?_⟩
  intro block
  have kept : (block.instrs.modify position (Instr.visited visit state)).map Instr.outline =
      block.instrs.map Instr.outline := by
    apply List.ext_getElem?
    intro i
    by_cases here : position = i <;> simp [here, Function.comp_def, visited_outline]
  exact congrArg (Prod.mk block.label) kept

theorem substitute_outline (old new : Operand) (table : BlockTable) :
    (table.substitute old new).1.SameOutline table := by
  refine ⟨rfl, ?_⟩
  simp only [BlockTable.substitute, BlockTable.editAll, List.map_map, substitute_visited]
  refine List.map_congr_left fun block _ => congrArg (Prod.mk block.label) ?_
  simp only [List.map_map, Function.comp_def, visited_outline]

theorem same_outline_trans (a b c : BlockTable) (first : a.SameOutline b) (second : b.SameOutline c) :
    a.SameOutline c :=
  ⟨first.index.trans second.index, first.outlines.trans second.outlines⟩

theorem revised_same_outline (body revised : Body) (table : BlockTable) (content : body.payload = .blocks table)
    (visits : body.Revised revised) :
    ∃ other, revised.payload = .blocks other ∧ other.SameOutline table := by
  induction visits with
  | plain => exact ⟨table, content, rfl, rfl⟩
  | visit before held label position visit state _ holds ih =>
      obtain ⟨other, also, earlier⟩ := ih
      obtain rfl : held = other := Payload.blocks.inj (holds.symm.trans also)
      have step := edit_visited_outline visit state label position held
      exact ⟨_, rfl, same_outline_trans _ held table step earlier⟩
  | substitute before held old new _ holds ih =>
      obtain ⟨other, also, earlier⟩ := ih
      obtain rfl : held = other := Payload.blocks.inj (holds.symm.trans also)
      exact ⟨_, rfl, same_outline_trans _ held table (substitute_outline old new held) earlier⟩

theorem settled_by_outline {α : Type} (view : Block → α)
    (settled : ∀ a b : Block, a.outline = b.outline → view a = view b) (as bs : List Block)
    (same : as.map Block.outline = bs.map Block.outline) : as.map view = bs.map view := by
  induction as generalizing bs with
  | nil => rw [List.map_eq_nil_iff.mp same.symm]
  | cons a rest ih =>
      obtain ⟨b, others, rfl, first, later⟩ := List.map_eq_cons_iff.mp same.symm
      exact congrArg₂ List.cons (settled a b first.symm) (ih others later.symm)

theorem same_outline_flow (a b : BlockTable) (same : a.SameOutline b) : a.SameFlow b := by
  refine ⟨same.index, settled_by_outline Block.flow ?_ a.blocks b.blocks same.outlines⟩
  intro x y equal
  rw [Block.flow, Block.flow, same_outline_label x y equal, same_outline_successors x y equal,
    same_outline_targets x y equal]

theorem same_outline_report (convention : Convention) (a b : BlockTable) (same : a.SameOutline b) :
    a.problems convention = b.problems convention := by
  have flow := same_outline_flow a b same
  have shapes : a.blocks.flatMap (Block.shapeProblems convention.exit) =
      b.blocks.flatMap (Block.shapeProblems convention.exit) := by
    rw [List.flatMap_def, List.flatMap_def,
      settled_by_outline (Block.shapeProblems convention.exit)
        (fun x y equal => same_outline_problems x y equal convention.exit) a.blocks b.blocks same.outlines]
  simp only [BlockTable.problems, BlockTable.missingLabels, BlockTable.unreachableProblems, shapes,
    same_flow_contains a b flow, same_flow_dangling a b flow, same_flow_unreachable a b flow]

theorem visits_keep_frame (body revised : Body) (table : BlockTable) (content : body.payload = .blocks table)
    (visits : body.Revised revised) :
    ∃ other, revised.payload = .blocks other ∧
      other.labels = table.labels ∧
      other.blocks.map Block.outline = table.blocks.map Block.outline ∧
      (∀ label, other.successors label = table.successors label) ∧
      other.predecessors = table.predecessors ∧
      (∀ label, other.reachableFrom label = table.reachableFrom label) ∧
      (∀ label, other.unreachable label = table.unreachable label) ∧
      (∀ label, other.postorder label = table.postorder label) ∧
      other.danglingTargets = table.danglingTargets ∧
      ∀ convention, revised.problems convention = body.problems convention := by
  obtain ⟨other, also, same⟩ := revised_same_outline body revised table content visits
  have flow := same_outline_flow other table same
  refine ⟨other, also, same_flow_labels other table flow, same.outlines, same_flow_successors other table flow,
    same_flow_predecessors other table flow, same_flow_reachable other table flow,
    same_flow_unreachable other table flow, same_flow_postorder other table flow,
    same_flow_dangling other table flow, ?_⟩
  intro convention
  simpa only [Body.problems, content, also] using same_outline_report convention other table same

theorem shifted_reads_keep_frame :
    let x := Operand.var .localVar "x"
    let y := Operand.var .localVar "y"
    let pair : Instr := ⟨.synthetic, .assign Temp.first (.tuple [x, y])⟩
    let table := BlockTable.ofList [⟨.entry, [pair, ⟨.synthetic, .branch x .exit ⟨"ghost"⟩⟩]⟩, ⟨.exit, []⟩]
    let body : Body := ⟨"shift.src", .synthetic, ∅, .blocks table⟩
    let shift : Operand → StateM Operand Operand := fun a => do
      let previous ← get
      set a
      return previous
    let once := table.edit .entry fun instrs => instrs.modify 0 (Instr.visited shift (.constant .none))
    let revised : Body := ⟨"shift.src", .synthetic, ∅, .blocks (once.substitute x y).1⟩
    pair.visited shift (.constant .none) = ⟨.synthetic, .assign Temp.first (.tuple [.constant .none, x])⟩ ∧
      body.payload = .blocks table ∧ body.Revised revised ∧
      (once.substitute x y).1.danglingTargets = table.danglingTargets ∧ revised.problems {} = body.problems {} := by
  intro x y pair table body shift once revised
  have first : body.Revised ⟨"shift.src", .synthetic, ∅, .blocks once⟩ :=
    .visit body table .entry 0 shift (.constant .none) .plain rfl
  have second : body.Revised revised := .substitute _ once x y first rfl
  obtain ⟨other, also, -, -, -, -, -, -, -, dangling, report⟩ := visits_keep_frame body revised table rfl second
  obtain rfl := Payload.blocks.inj also
  exact ⟨rfl, rfl, second, dangling, report {}⟩

end MidIR
