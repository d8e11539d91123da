import MidIR.Proofs.Block.Shape
import MidIR.Proofs.Graph.Reachable
import MidIR.Proofs.Graph.References

set_option autoImplicit false

namespace MidIR

structure BlockTable.WellFormed (convention : Convention) (table : BlockTable) : Prop where
  entry : convention.entry ∈ table.labels
  exit : convention.exit ∈ table.labels
  shape : ∀ block ∈ table.blocks, block.Closed ∨ block.label = convention.exit ∧ block.Idle
  targets : ∀ block ∈ table.blocks, ∀ instr ∈ block.instrs, ∀ target,
    instr.op.Names target → target ∈ table.labels
  reachable : convention.requireReachable = true → ∀ block ∈ table.blocks,
    block.label ≠ convention.exit → table.Path convention.entry block.label

def Body.WellFormed (convention : Convention) (body : Body) : Prop :=
  ∃ table, body.payload = .blocks table ∧ table.WellFormed convention

theorem missing_labels_nil_iff (convention : Convention) (table : BlockTable) (indexed : table.Indexed) :
    table.missingLabels convention = [] ↔
      convention.entry ∈ table.labels ∧ convention.exit ∈ table.labels := by
  simp [BlockTable.missingLabels, indexed_contains_iff table indexed]

theorem dangling_targets_nil_iff (table : BlockTable) (indexed : table.Indexed) :
    table.danglingTargets = [] ↔ ∀ block ∈ table.blocks, ∀ instr ∈ block.instrs, ∀ target,
      instr.op.Names target → target ∈ table.labels := by
  rw [List.eq_nil_iff_forall_not_mem]
  constructor
  · intro nothing block member instr inside target named
    by_contra missing
    exact nothing (block.label, target)
      ((dangling_iff table indexed block.label target).mpr ⟨block, member, rfl, instr, inside, named, missing⟩)
  · intro all ⟨source, target⟩ listed
    obtain ⟨block, member, -, instr, inside, named, missing⟩ := (dangling_iff table indexed source target).mp listed
    exact missing (all block member instr inside target named)

theorem unreachable_problems_iff (convention : Convention) (table : BlockTable) (indexed : table.Indexed)
    (problem : Problem) :
    problem ∈ table.unreachableProblems convention ↔ convention.requireReachable = true ∧
      convention.entry ∈ table.labels ∧ ∃ label ∈ table.labels, label ≠ convention.exit ∧
        ¬ table.Path convention.entry label ∧ .unreachable label convention.entry = problem := by
  by_cases checked : convention.requireReachable = true ∧ convention.entry ∈ table.labels
  · obtain ⟨demanded, present⟩ := checked
    simp only [BlockTable.unreachableProblems, demanded, (indexed_contains_iff table indexed _).mpr present,
      Bool.and_self, if_true, List.mem_map, List.mem_filter, unreachable_iff table indexed, present, true_and,
      decide_eq_true_eq]
    exact exists_congr fun label => by tauto
  · have skipped : table.unreachableProblems convention = [] := by
      simp only [BlockTable.unreachableProblems, Bool.and_eq_true, indexed_contains_iff table indexed, checked,
        if_false]
    rw [skipped]
    exact iff_of_false List.not_mem_nil fun found => checked ⟨found.1, found.2.1⟩

theorem unreachable_problems_nil_iff (convention : Convention) (table : BlockTable)
    (indexed : table.Indexed) (present : convention.entry ∈ table.labels) :
    table.unreachableProblems convention = [] ↔ (convention.requireReachable = true →
      ∀ block ∈ table.blocks, block.label ≠ convention.exit → table.Path convention.entry block.label) := by
  simp only [List.eq_nil_iff_forall_not_mem, unreachable_problems_iff convention table indexed]
  constructor
  · intro nothing demanded block member other
    by_contra lost
    exact nothing _ ⟨demanded, present, block.label, List.mem_map_of_mem member, other, lost, rfl⟩
  · intro found problem ⟨demanded, _, label, member, other, lost, _⟩
    obtain ⟨block, inside, rfl⟩ := List.mem_map.mp member
    exact lost (found demanded block inside other)

theorem table_problems_nil_iff (convention : Convention) (table : BlockTable) (indexed : table.Indexed) :
    table.problems convention = [] ↔ table.WellFormed convention := by
  have shapes : table.blocks.flatMap (Block.shapeProblems convention.exit) = [] ↔
      ∀ block ∈ table.blocks, block.Closed ∨ block.label = convention.exit ∧ block.Idle := by
    simp [shape_problems_nil_iff]
  rw [BlockTable.problems, List.append_eq_nil_iff, List.append_eq_nil_iff, List.append_eq_nil_iff,
    missing_labels_nil_iff convention table indexed, shapes, List.map_eq_nil_iff,
    dangling_targets_nil_iff table indexed]
  constructor
  · intro ⟨⟨⟨⟨entry, exit⟩, shape⟩, targets⟩, reachable⟩
    exact ⟨entry, exit, shape, targets,
      (unreachable_problems_nil_iff convention table indexed entry).mp reachable⟩
  · intro ⟨entry, exit, shape, targets, reachable⟩
    exact ⟨⟨⟨⟨entry, exit⟩, shape⟩, targets⟩,
      (unreachable_problems_nil_iff convention table indexed entry).mpr reachable⟩

theorem body_problems_nil_iff (convention : Convention) (body : Body) (built : body.Built) :
    body.problems convention = [] ↔ body.WellFormed convention := by
  cases content : body.payload with
  | primitive marker => simp [Body.problems, Body.WellFormed, content]
  | blocks table =>
      have indexed := built_indexed table (built table content)
      simp [Body.problems, Body.WellFormed, content, table_problems_nil_iff convention table indexed]

theorem validate_ok_iff (convention : Convention) (body : Body) :
    body.validate convention = .ok () ↔ body.problems convention = [] := by
  cases found : body.problems convention <;> simp [Body.validate, found]

theorem of_list_well_formed (convention : Convention) (blocks : List Block)
    (distinct : (blocks.map Block.label).Nodup) (entry : convention.entry ∈ blocks.map Block.label)
    (exit : convention.exit ∈ blocks.map Block.label)
    (shapes : ∀ block ∈ blocks, block.shapeProblems convention.exit = [])
    (named : ∀ block ∈ blocks, ∀ instr ∈ block.instrs, ∀ target ∈ instr.op.successors,
      target ∈ blocks.map Block.label)
    (reachable : convention.requireReachable = true → ∀ block ∈ blocks, block.label ≠ convention.exit →
      (BlockTable.ofList blocks).Path convention.entry block.label) :
    (BlockTable.ofList blocks).WellFormed convention := by
  have kept := of_list_blocks blocks distinct
  have labels := of_list_labels blocks distinct
  refine ⟨labels ▸ entry, labels ▸ exit, ?_, ?_, kept.symm ▸ reachable⟩
  · rw [kept]
    exact fun block member => (shape_problems_nil_iff convention.exit block).mp (shapes block member)
  · rw [kept, labels]
    exact fun block member instr inside target names =>
      named block member instr inside target ((op_names_iff instr.op target).mp names)

def waitingBlocks : List Block :=
  [⟨.entry, [⟨.synthetic, .jump ⟨"wait"⟩⟩]⟩,
    ⟨⟨"wait"⟩, [⟨.synthetic, .liveStart "x" ⟨"Int"⟩⟩,
      ⟨.synthetic, .branch (.var .localVar "x") ⟨"wait"⟩ .exit⟩, ⟨.synthetic, .liveEnd "x"⟩]⟩,
    ⟨.exit, [⟨.synthetic, .liveEnd "y"⟩]⟩]

def waitingBody : Body := ⟨"wait.src", .synthetic, ∅, .blocks (.ofList waitingBlocks)⟩

theorem waiting_body_built : waitingBody.Built := of_list_body_built "wait.src" .synthetic ∅ waitingBlocks

theorem waiting_labels : (BlockTable.ofList waitingBlocks).labels = waitingBlocks.map Block.label :=
  of_list_labels waitingBlocks (by decide)

theorem waiting_body_well_formed : waitingBody.WellFormed {} := by
  have starts : ∀ block ∈ waitingBlocks, block.label ≠ .exit →
      block.label = .entry ∨ block.label = ⟨"wait"⟩ := by decide
  have edge : (BlockTable.ofList waitingBlocks).Edge .entry ⟨"wait"⟩ :=
    (of_list_edge_iff waitingBlocks (by decide) .entry ⟨"wait"⟩).mpr (by decide)
  refine ⟨.ofList waitingBlocks, rfl, of_list_well_formed {} waitingBlocks (by decide) (by decide) (by decide)
    (by decide) (by decide) ?_⟩
  intro _ block member other
  rcases starts block member other with same | same
  · exact same ▸ .refl
  · exact same ▸ .single edge

theorem body_accepted_iff (convention : Convention) (body : Body) (built : body.Built) :
    (body.problems convention = [] ↔ body.WellFormed convention) ∧
      (body.validate convention = .ok () ↔ body.WellFormed convention) := by
  have clean := body_problems_nil_iff convention body built
  exact ⟨clean, (validate_ok_iff convention body).trans clean⟩

theorem waiting_body_accepted :
    waitingBody.Built ∧ waitingBody.problems {} = [] ∧ waitingBody.validate {} = .ok () := by
  obtain ⟨problems, validate⟩ := body_accepted_iff {} waitingBody waiting_body_built
  exact ⟨waiting_body_built, problems.mpr waiting_body_well_formed, validate.mpr waiting_body_well_formed⟩

end MidIR
