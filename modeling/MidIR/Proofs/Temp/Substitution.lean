import MidIR.Proofs.Op.Substitution
import MidIR.Proofs.Table.History
import MidIR.Proofs.Temp.Freshness

set_option autoImplicit false

namespace MidIR

namespace Body

def substitute (old new : Operand) (body : Body) : Body :=
  match body.payload with
  | .primitive _ => body
  | .blocks table => { body with payload := .blocks (table.substitute old new).1 }

def instrs (body : Body) : List Instr :=
  match body.payload with
  | .primitive _ => []
  | .blocks table => table.blocks.flatMap Block.instrs

def replacements (old new : Operand) (body : Body) : List Nat :=
  body.instrs.map fun instr => (instr.substitute old new).2

end Body

theorem substitute_instrs (old new : Operand) (body : Body) :
    (body.substitute old new).instrs = body.instrs.map fun instr => (instr.substitute old new).1 := by
  cases content : body.payload with
  | primitive marker => simp [Body.substitute, Body.instrs, content]
  | blocks table =>
      simp [Body.substitute, Body.instrs, content, BlockTable.substitute, BlockTable.editAll, List.flatMap_map,
        List.map_flatMap]

theorem table_substitute_back (old new : Operand) (table : BlockTable)
    (fresh : ∀ block ∈ table.blocks, ∀ instr ∈ block.instrs, new ∉ instr.op.held) :
    ((table.substitute old new).1.substitute new old).1 = table := by
  have each : ∀ block ∈ table.blocks, ∀ instr ∈ block.instrs,
      ((instr.substitute old new).1.substitute new old).1 = instr := by
    intro block member instr inside
    rw [instr_substitute_back old new instr (fresh block member instr inside)]
  have blocks : ((table.substitute old new).1.substitute new old).1.blocks = table.blocks := by
    simp only [BlockTable.substitute, BlockTable.editAll, List.map_map]
    refine (List.map_congr_left fun block member => ?_).trans (List.map_id' table.blocks)
    have restored := (List.map_congr_left (each block member)).trans (List.map_id' block.instrs)
    simp only [Function.comp_def, List.map_map, restored]
  exact congrArg (BlockTable.mk · table.index) blocks

theorem body_substitute_back (old new : Operand) (body : Body) (fresh : ∀ instr ∈ body.instrs, new ∉ instr.op.held) :
    (body.substitute old new).substitute new old = body := by
  cases content : body.payload with
  | primitive marker => simp [Body.substitute, content]
  | blocks table =>
      have restored := table_substitute_back old new table fun block member instr inside =>
        fresh instr (by simpa [Body.instrs, content] using ⟨block, member, inside⟩)
      simp only [Body.substitute, content, restored]
      rw [← content]

theorem unmentioned_unheld (body : Body) (t : Temp) (unmentioned : ¬ body.Mentions t) :
    ∀ instr ∈ body.instrs, .temp t ∉ instr.op.held := by
  intro instr member held
  have listed := (op_temps_iff instr.op t).mp (read_temp_listed instr.op t (op_held_read instr.op _ held))
  cases content : body.payload with
  | primitive marker => simp [Body.instrs, content] at member
  | blocks table =>
      obtain ⟨block, among, inside⟩ : ∃ block ∈ table.blocks, instr ∈ block.instrs := by
        simpa [Body.instrs, content] using member
      exact unmentioned ⟨table, content, block, among, instr, inside, listed⟩

theorem substitute_replacements (old new : Operand) (body : Body) (fresh : ∀ instr ∈ body.instrs, new ∉ instr.op.held) :
    (body.substitute old new).replacements new old = body.replacements old new := by
  rw [Body.replacements, substitute_instrs, List.map_map]
  refine List.map_congr_left fun instr member => ?_
  rw [Function.comp_apply, instr_substitute_back old new instr (fresh instr member)]

theorem substitution_reversible (body : Body) (old : Operand) (n : Nat) (t : Temp)
    (taken : some t ∈ (body.tempSupply.take n).1) :
    (body.substitute old (.temp t)).substitute (.temp t) old = body ∧
      (body.substitute old (.temp t)).replacements (.temp t) old = body.replacements old (.temp t) ∧
      (old ≠ .temp t → ∀ instr ∈ (body.substitute old (.temp t)).instrs, old ∉ instr.op.held) := by
  have fresh := unmentioned_unheld body t (taken_unmentioned body n t taken)
  refine ⟨body_substitute_back old (.temp t) body fresh, substitute_replacements old (.temp t) body fresh, ?_⟩
  intro different instr member
  rw [substitute_instrs] at member
  obtain ⟨original, -, rfl⟩ := List.mem_map.mp member
  exact op_substitute_gone old (.temp t) different original.op

def borrowingBlocks : List Block :=
  [⟨.entry,
      [⟨.synthetic, .assign ⟨4⟩ (.lambda ⟨"f"⟩ ⟨"F"⟩ ["x"])⟩,
        ⟨.synthetic, .assign ⟨0⟩
          (.mixed ⟨"L"⟩ [⟨false, .var .localVar "x"⟩, ⟨true, .temp ⟨4⟩⟩, ⟨false, .var .localVar "x"⟩])⟩,
        ⟨.synthetic, .store "x" (.var .localVar "x")⟩]⟩,
    ⟨.exit, [⟨.synthetic, .branch (.var .localVar "x") .exit .entry⟩]⟩]

-- The variable is read in four places; where a store names it, it stays.
theorem borrowed_register_given_back :
    let body : Body := ⟨"lend.src", .synthetic, ∅, .blocks (.ofList borrowingBlocks)⟩
    let lent := body.substitute (.var .localVar "x") (.temp ⟨5⟩)
    some ⟨5⟩ ∈ (body.tempSupply.take 1).1 ∧ body.replacements (.var .localVar "x") (.temp ⟨5⟩) = [0, 2, 1, 1] ∧
      lent.replacements (.temp ⟨5⟩) (.var .localVar "x") = [0, 2, 1, 1] ∧
      lent.substitute (.temp ⟨5⟩) (.var .localVar "x") = body ∧
      ∀ instr ∈ lent.instrs, .var .localVar "x" ∉ instr.op.held := by
  intro body lent
  have kept := of_list_blocks borrowingBlocks (by decide)
  have taken : some ⟨5⟩ ∈ (body.tempSupply.take 1).1 := by
    simp only [Body.tempSupply, Body.maxTemp?, body, kept]
    decide
  have counts : body.replacements (.var .localVar "x") (.temp ⟨5⟩) = [0, 2, 1, 1] := by
    simp only [Body.replacements, Body.instrs, body, kept]
    decide
  obtain ⟨restored, same, gone⟩ := substitution_reversible body (.var .localVar "x") 1 ⟨5⟩ taken
  exact ⟨taken, counts, same.trans counts, restored, gone (by decide)⟩

end MidIR
