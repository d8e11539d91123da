import MidIR.Proofs.Check.WellFormed
import MidIR.Proofs.Graph.Predecessors

set_option autoImplicit false

namespace MidIR

def BlockTable.Goes (table : BlockTable) (source target : Label) : Prop := target ∈ table.successors source

theorem goes_present (convention : Convention) (table : BlockTable) (indexed : table.Indexed)
    (wellFormed : table.WellFormed convention) (source target : Label) (goes : table.Goes source target) :
    target ∈ table.labels := by
  obtain ⟨block, member, -, before, last, markers, split, -, named⟩ := (successors_iff table indexed source target).mp goes
  exact wellFormed.targets block member last (by simp [split]) target named

theorem chain_present (convention : Convention) (table : BlockTable) (indexed : table.Indexed)
    (wellFormed : table.WellFormed convention) (rest : List Label) (first : Label)
    (present : first ∈ table.labels) (chain : (first :: rest).IsChain table.Goes) :
    ∀ label ∈ first :: rest, label ∈ table.labels := by
  induction rest generalizing first with
  | nil =>
      intro label member
      obtain rfl := List.mem_singleton.mp member
      exact present
  | cons second rest ih =>
      obtain ⟨goes, onwards⟩ := List.isChain_cons_cons.mp chain
      have ahead := goes_present convention table indexed wellFormed first second goes
      intro label member
      rcases List.mem_cons.mp member with rfl | later
      · exact present
      · exact ih second ahead onwards label later

theorem stop_is_exit (convention : Convention) (table : BlockTable) (indexed : table.Indexed)
    (wellFormed : table.WellFormed convention) (label : Label) (present : label ∈ table.labels)
    (stops : table.successors label = []) : label = convention.exit := by
  obtain ⟨block, member, same⟩ := List.mem_map.mp present
  rcases wellFormed.shape block member with closed | ⟨exit, -⟩
  · obtain ⟨before, jump, markers, split, isJump, trailing, -⟩ := closed
    obtain ⟨target, named⟩ := jump_names jump.op isJump
    have goes := (successors_iff table indexed label target).mpr
      ⟨block, member, same, before, jump, markers, split, trailing, named⟩
    rw [stops] at goes
    cases goes
  · exact same ▸ exit

theorem jump_at_end (exit : Label) (block : Block) (shape : block.Closed ∨ block.label = exit ∧ block.Idle)
    (position : Nat) (instr : Instr) (here : block.instrs[position]? = some instr) (isJump : instr.op.IsJump) :
    block.endPosition? = some position ∧ block.terminator? = some instr := by
  rcases shape with closed | ⟨-, idle⟩
  · obtain ⟨before, last, markers, ends, also, calm⟩ := (closed_iff_ends block).mp closed
    obtain rfl := ends_jump_position block before last markers ends calm position instr here isJump
    obtain ⟨found, there⟩ := ends_position block before last markers ends
    obtain rfl := Option.some.inj (here.symm.trans there)
    have terminator : instr.isTerminator = true := (op_jump_iff instr.op).mp isJump
    refine ⟨found, ?_⟩
    rw [ends_terminator block before instr markers ends, if_pos terminator]
  · exact absurd (idle instr (List.mem_of_getElem? here)) (jump_not_marker instr.op isJump)

theorem accepted_control_flow (convention : Convention) (body : Body) (built : body.Built)
    (accepted : body.validate convention = .ok ()) :
    ∃ table, body.payload = .blocks table ∧
      (∀ path : List Label, path.head? = some convention.entry → path.IsChain table.Goes →
        (∀ label ∈ path, table.contains label = true) ∧
          ∀ last, path.getLast? = some last → table.successors last = [] → last = convention.exit) ∧
      (∀ block ∈ table.blocks, ∀ (position : Nat) (instr : Instr),
        block.instrs[position]? = some instr → instr.isTerminator = true →
          block.endPosition? = some position ∧ block.terminator? = some instr ∧ instr.op.successors ≠ []) ∧
      (convention.requireReachable = true →
        (table.postorder convention.entry).Nodup ∧
          (∀ label ∈ table.postorder convention.entry, label ∈ table.labels) ∧
          (∀ label ∈ table.labels, label ≠ convention.exit →
            (table.postorder convention.entry).count label = 1) ∧
          ∀ label ∈ table.labels, label ≠ convention.entry → label ≠ convention.exit →
            ∃ sources, table.predecessors[label]? = some sources ∧ sources ≠ []) := by
  have clean := (validate_ok_iff convention body).mp accepted
  obtain ⟨table, content, wellFormed⟩ := (body_problems_nil_iff convention body built).mp clean
  have indexed := built_indexed table (built table content)
  refine ⟨table, content, ?_, ?_, ?_⟩
  · intro path starts chain
    obtain ⟨rest, rfl⟩ := List.head?_eq_some_iff.mp starts
    have present := chain_present convention table indexed wellFormed rest convention.entry wellFormed.entry chain
    refine ⟨fun label member => (indexed_contains_iff table indexed label).mpr (present label member), ?_⟩
    intro last ends stops
    exact stop_is_exit convention table indexed wellFormed last (present last (List.mem_of_getLast? ends)) stops
  · intro block member position instr here terminator
    have isJump := (op_jump_iff instr.op).mpr terminator
    obtain ⟨position, final⟩ := jump_at_end convention.exit block (wellFormed.shape block member) position instr here isJump
    exact ⟨position, final, (op_terminator_iff instr.op).mp terminator⟩
  · intro demanded
    have distinct := postorder_nodup table indexed convention.entry
    have paths : ∀ label ∈ table.labels, label ≠ convention.exit → table.Path convention.entry label := by
      intro label present other
      obtain ⟨block, member, rfl⟩ := List.mem_map.mp present
      exact wellFormed.reachable demanded block member other
    refine ⟨distinct, ?_, ?_, ?_⟩
    · intro label listed
      exact path_present table convention.entry label wellFormed.entry ((postorder_iff table indexed _ label).mp listed).2
    · intro label present other
      have listed := (postorder_iff table indexed _ label).mpr ⟨wellFormed.entry, paths label present other⟩
      exact List.count_eq_one_of_mem distinct listed
    · intro label present inner other
      exact path_predecessor table convention.entry label (paths label present other) inner

theorem waiting_body_control_flow :
    waitingBody.Built ∧ waitingBody.validate {} = .ok () ∧
      ∃ table, waitingBody.payload = .blocks table ∧ (table.postorder .entry).count ⟨"wait"⟩ = 1 ∧
        ∃ sources, table.predecessors[(⟨"wait"⟩ : Label)]? = some sources ∧ sources ≠ [] := by
  have clean := (body_problems_nil_iff {} waitingBody waiting_body_built).mpr waiting_body_well_formed
  have accepted := (validate_ok_iff {} waitingBody).mpr clean
  obtain ⟨table, content, -, -, complete⟩ := accepted_control_flow {} waitingBody waiting_body_built accepted
  obtain rfl := Payload.blocks.inj content
  obtain ⟨-, -, once, preceded⟩ := complete rfl
  have present : (⟨"wait"⟩ : Label) ∈ (BlockTable.ofList waitingBlocks).labels := waiting_labels ▸ by decide
  refine ⟨waiting_body_built, accepted, _, rfl, once _ present (by decide), ?_⟩
  exact preceded _ present (by decide) (by decide)

end MidIR
