import MidIR.Body
import MidIR.Proofs.Op.Operands
import MidIR.Proofs.Temp.Supply

set_option autoImplicit false

namespace MidIR

def Body.Mentions (body : Body) (t : Temp) : Prop :=
  ∃ table, body.payload = .blocks table ∧
    ∃ block ∈ table.blocks, ∃ instr ∈ block.instrs, .temp t ∈ instr.op.operands

-- The least number above those of all registers that the body mentions.
inductive Body.FirstFree (body : Body) : Nat → Prop where
  | unused (nothing : ∀ t, ¬ body.Mentions t) : FirstFree body 0
  | after (highest : Temp) (mentioned : body.Mentions highest)
      (top : ∀ t, body.Mentions t → t ≤ highest) : FirstFree body (highest.id.toNat + 1)

theorem temps_among_iff (args : List Operand) (t : Temp) :
    t ∈ args.filterMap Operand.temp? ↔ .temp t ∈ args := by
  simp only [List.mem_filterMap, operand_temp_some_iff, exists_eq_right]

theorem op_temps_iff (op : Op) (t : Temp) : t ∈ op.temps ↔ .temp t ∈ op.operands := by
  rw [Op.temps, List.mem_append, temps_among_iff]
  cases op with
  | assign target value => simp [Op.target?, Op.reads, assign_operands, or_comm]
  | debug value => cases value <;> simp [Op.target?, Op.reads, Op.operands, Op.fields, Field.operand?]
  | _ => simp [Op.target?, Op.reads, Op.operands, Op.fields, Field.operand?]

theorem read_temp_listed (op : Op) (t : Temp) (read : .temp t ∈ op.reads) : t ∈ op.temps := by
  simp [Op.temps, read]

theorem target_listed (op : Op) (t : Temp) (target : op.target? = some t) : t ∈ op.temps := by
  simp [Op.temps, target]

theorem mentions_iff (body : Body) (table : BlockTable) (content : body.payload = .blocks table) (t : Temp) :
    body.Mentions t ↔ ∃ block ∈ table.blocks, t ∈ block.temps := by
  simp [Body.Mentions, content, Block.temps, op_temps_iff]

theorem blocks_max_temp_none (blocks : List Block) (none : (blocks.filterMap Block.maxTemp?).max? = none) :
    ∀ block ∈ blocks, block.temps = [] := by
  intro block member
  rw [List.max?_eq_none_iff, List.filterMap_eq_nil_iff] at none
  exact List.max?_eq_none_iff.mp (none block member)

-- The highest of the highest: a block that mentions none has no say.
theorem blocks_max_temp_some (blocks : List Block) (highest : Temp)
    (found : (blocks.filterMap Block.maxTemp?).max? = some highest) :
    (∃ block ∈ blocks, highest ∈ block.temps) ∧ ∀ block ∈ blocks, ∀ t ∈ block.temps, t ≤ highest := by
  obtain ⟨listed, top⟩ := List.max?_eq_some_iff.mp found
  constructor
  · obtain ⟨block, member, highestHere⟩ := List.mem_filterMap.mp listed
    exact ⟨block, member, List.max?_mem highestHere⟩
  · intro block member t mentioned
    cases here : block.maxTemp? with
    | none =>
        rw [List.max?_eq_none_iff.mp here] at mentioned
        cases mentioned
    | some own =>
        have below := (List.max?_eq_some_iff.mp here).2 t mentioned
        exact Std.le_trans below (top own (List.mem_filterMap.mpr ⟨block, member, here⟩))

theorem unused_max_temp (body : Body) (none : body.maxTemp? = none) (t : Temp) : ¬ body.Mentions t := by
  intro mentioned
  have ⟨table, content, _⟩ := mentioned
  simp only [Body.maxTemp?, content] at none
  obtain ⟨block, member, listed⟩ := (mentions_iff body table content t).mp mentioned
  rw [blocks_max_temp_none table.blocks none block member] at listed
  cases listed

theorem highest_max_temp (body : Body) (highest : Temp) (found : body.maxTemp? = some highest) :
    body.Mentions highest ∧ ∀ t, body.Mentions t → t ≤ highest := by
  cases content : body.payload with
  | primitive marker => simp [Body.maxTemp?, content] at found
  | blocks table =>
      simp only [Body.maxTemp?, content] at found
      obtain ⟨listed, top⟩ := blocks_max_temp_some table.blocks highest found
      refine ⟨(mentions_iff body table content highest).mpr listed, fun t mentioned => ?_⟩
      obtain ⟨block, member, here⟩ := (mentions_iff body table content t).mp mentioned
      exact top block member t here

theorem supply_first_free (body : Body) : body.FirstFree body.tempSupply.count := by
  cases found : body.maxTemp? with
  | none =>
      rw [Body.tempSupply, found]
      exact .unused (unused_max_temp body found)
  | some highest =>
      obtain ⟨mentioned, top⟩ := highest_max_temp body highest found
      rw [Body.tempSupply, found, TempSupply.after, temp_succ_count]
      exact .after highest mentioned top

theorem first_free_above (body : Body) (start : Nat) (free : body.FirstFree start) (t : Temp)
    (mentioned : body.Mentions t) : t.id.toNat < start := by
  cases free with
  | unused nothing => exact absurd mentioned (nothing t)
  | after highest _ top => exact Nat.lt_succ_of_le (UInt32.le_iff_toNat_le.mp (top t mentioned))

theorem taken_unmentioned (body : Body) (n : Nat) (t : Temp) (taken : some t ∈ (body.tempSupply.take n).1) :
    ¬ body.Mentions t := by
  intro mentioned
  have below := first_free_above body _ (supply_first_free body) t mentioned
  have above := taken_number n body.tempSupply t taken
  omega

theorem supply_of_body_fresh (body : Body) :
    ∃ start, body.FirstFree start ∧ ∀ n,
      (body.tempSupply.take n).1.map (Option.map fun t => t.id.toNat) =
          ((List.range n).map fun i => if start + i < UInt32.size then some (start + i) else none) ∧
        (body.tempSupply.take n).2.count = min (start + n) UInt32.size ∧
        ((body.tempSupply.take n).2.exhausted = true ↔ UInt32.size ≤ start + n) ∧
        ((body.tempSupply.take n).1.filterMap id).Nodup ∧
        ∀ t, some t ∈ (body.tempSupply.take n).1 →
          ¬ body.Mentions t ∧ ∀ table, body.payload = .blocks table →
            ∀ block ∈ table.blocks, ∀ instr ∈ block.instrs,
              .temp t ∉ instr.op.reads ∧ instr.op.target? ≠ some t ∧ .temp t ∉ instr.op.operands := by
  refine ⟨body.tempSupply.count, supply_first_free body, fun n => ?_⟩
  refine ⟨take_numbers n body.tempSupply, take_count n body.tempSupply, ?_, taken_nodup n body.tempSupply, ?_⟩
  · rw [supply_exhausted_iff, take_count, Nat.le_min]
    exact and_iff_left (Nat.le_refl UInt32.size)
  · intro t taken
    have unmentioned := taken_unmentioned body n t taken
    refine ⟨unmentioned, fun table content block member instr inside => ?_⟩
    have absent : t ∉ instr.op.temps := by
      intro listed
      exact unmentioned ⟨table, content, block, member, instr, inside, (op_temps_iff instr.op t).mp listed⟩
    exact ⟨fun read => absent (read_temp_listed instr.op t read),
      fun target => absent (target_listed instr.op t target),
      fun operand => absent ((op_temps_iff instr.op t).mpr operand)⟩

end MidIR
