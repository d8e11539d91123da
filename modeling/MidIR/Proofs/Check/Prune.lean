import MidIR.Proofs.Check.Acceptance
import MidIR.Proofs.Graph.Part
import MidIR.Proofs.Graph.Reachable
import MidIR.Proofs.Table.Removal

set_option autoImplicit false

namespace MidIR

theorem prune_blocks (entry : Label) (table : BlockTable) (indexed : table.Indexed) :
    (table.prune entry).blocks =
      table.blocks.filter fun block => (table.reachableFrom entry).contains block.label := by
  rw [prune_removes_unreachable, remove_all_blocks _ table indexed]
  refine List.filter_congr fun block member => ?_
  have present : block.label ∈ table.labels := List.mem_map_of_mem member
  rw [Bool.eq_iff_iff, decide_eq_true_iff, Std.ExtHashSet.contains_iff_mem]
  simp [BlockTable.unreachable, present]

theorem prune_part (entry : Label) (table : BlockTable) (indexed : table.Indexed) :
    table.Part (table.prune entry) (· ∈ table.reachableFrom entry) := by
  refine ⟨indexed, remove_all_indexed _ table indexed, ?_, ?_⟩
  · intro block
    rw [prune_blocks entry table indexed, List.mem_filter, Std.ExtHashSet.contains_iff_mem]
  · intro source target reached edge
    rw [reachable_from_iff table indexed] at reached ⊢
    exact ⟨reached.1, reached.2.tail edge⟩

theorem prune_label_iff (entry : Label) (table : BlockTable) (indexed : table.Indexed) (label : Label) :
    label ∈ (table.prune entry).labels ↔ label ∈ table.reachableFrom entry := by
  rw [part_label_iff (prune_part entry table indexed), reachable_from_iff table indexed]
  refine and_iff_right_of_imp fun reached => ?_
  exact path_present table entry label reached.1 reached.2

theorem prune_entry (entry : Label) (table : BlockTable) (indexed : table.Indexed)
    (present : entry ∈ table.labels) : entry ∈ (table.prune entry).labels := by
  rw [prune_label_iff entry table indexed, reachable_from_iff table indexed]
  exact ⟨present, .refl⟩

theorem prune_reachable_from (entry : Label) (table : BlockTable) (indexed : table.Indexed) (label : Label)
    (present : label ∈ (table.prune entry).labels) :
    (table.prune entry).reachableFrom label = table.reachableFrom label :=
  part_reachable_from (prune_part entry table indexed) label present

theorem prune_postorder (entry : Label) (table : BlockTable) (indexed : table.Indexed) :
    (table.prune entry).postorder entry = table.postorder entry := by
  by_cases present : entry ∈ table.labels
  · exact part_postorder (prune_part entry table indexed) entry (prune_entry entry table indexed present)
  · have gone : entry ∉ (table.prune entry).labels := by
      rw [prune_label_iff entry table indexed, reachable_from_iff table indexed]
      exact fun reached => present reached.1
    rw [postorder_absent table indexed entry present, postorder_absent _ (prune_part entry table indexed).also entry gone]

theorem prune_unreachable (entry : Label) (table : BlockTable) (indexed : table.Indexed) :
    (table.prune entry).unreachable entry = [] := by
  have carved := prune_part entry table indexed
  rw [List.eq_nil_iff_forall_not_mem]
  intro label listed
  obtain ⟨left, lost⟩ := (unreachable_iff _ carved.also entry label).mp listed
  have reached := (prune_label_iff entry table indexed label).mp left
  have entryLeft := prune_entry entry table indexed ((reachable_from_iff table indexed entry label).mp reached).1
  rw [← prune_reachable_from entry table indexed entry entryLeft, reachable_from_iff _ carved.also] at reached
  exact lost reached

theorem named_leads (exit : Label) (block : Block) (shape : block.Closed ∨ block.label = exit ∧ block.Idle)
    (instr : Instr) (inside : instr ∈ block.instrs) (target : Label) (named : instr.op.Names target) :
    block.Leads target := by
  obtain ⟨position, here⟩ := List.mem_iff_getElem?.mp inside
  have final := (jump_at_end exit block shape position instr here (named_jump instr.op target named)).2
  rw [← block_successors_iff, Block.successors, final]
  exact (op_names_iff instr.op target).mp named

theorem prune_targets (convention : Convention) (table : BlockTable) (indexed : table.Indexed)
    (wellFormed : table.WellFormed convention) (entry : Label) :
    (table.prune entry).danglingTargets = [] := by
  have carved := prune_part entry table indexed
  rw [dangling_targets_nil_iff _ carved.also]
  intro block member instr inside target named
  obtain ⟨before, reached⟩ := (carved.blocks block).mp member
  have leads := named_leads convention.exit block (wellFormed.shape block before) instr inside target named
  have present := wellFormed.targets block before instr inside target named
  rw [prune_label_iff entry table indexed]
  exact carved.closed block.label target reached ⟨⟨block, before, rfl, leads⟩, present⟩

theorem prune_problems (convention : Convention) (table : BlockTable) (indexed : table.Indexed)
    (wellFormed : table.WellFormed convention) (demanded : Bool) :
    (table.prune convention.entry).problems { convention with requireReachable := demanded } =
      if convention.exit ∈ table.reachableFrom convention.entry then [] else [.missingExit convention.exit] := by
  have carved := prune_part convention.entry table indexed
  have entry : (table.prune convention.entry).contains convention.entry = true :=
    (indexed_contains_iff _ carved.also _).mpr (prune_entry convention.entry table indexed wellFormed.entry)
  have exit : (table.prune convention.entry).contains convention.exit = true ↔
      convention.exit ∈ table.reachableFrom convention.entry := by
    rw [indexed_contains_iff _ carved.also, prune_label_iff convention.entry table indexed]
  have shapes : (table.prune convention.entry).blocks.flatMap (Block.shapeProblems convention.exit) = [] := by
    refine List.flatMap_eq_nil_iff.mpr fun block member => ?_
    exact (shape_problems_nil_iff convention.exit block).mpr
      (wellFormed.shape block ((carved.blocks block).mp member).1)
  have targets := prune_targets convention table indexed wellFormed convention.entry
  have reached := prune_unreachable convention.entry table indexed
  simp only [BlockTable.problems, BlockTable.missingLabels, BlockTable.unreachableProblems, entry, exit, shapes,
    targets, reached, if_true, List.nil_append, List.append_nil, List.map_nil, List.filter_nil, ite_self]

theorem pruning_exact (table : BlockTable) (built : table.Built) (entry : Label) (order : List Label)
    (each : order.Perm (table.unreachable entry)) :
    table.removeAll order = table.prune entry ∧
      (table.removeAll order).blocks =
        (table.blocks.filter fun block => (table.reachableFrom entry).contains block.label) ∧
      (∀ label, label ∈ (table.removeAll order).labels ↔ entry ∈ table.labels ∧ table.Path entry label) ∧
      (table.removeAll order).unreachable entry = [] ∧
      (table.removeAll order).postorder entry = table.postorder entry ∧
      (∀ label ∈ (table.removeAll order).labels,
        (table.removeAll order).reachableFrom label = table.reachableFrom label) ∧
      ∀ (convention : Convention) (body pruned : Body), convention.entry = entry →
        body.payload = .blocks table → pruned.payload = .blocks (table.removeAll order) →
        body.problems { convention with requireReachable := false } = [] →
          pruned.problems { convention with requireReachable := true } =
            if convention.exit ∈ table.reachableFrom entry then [] else [.missingExit convention.exit] := by
  have indexed := built_indexed table built
  have same : table.removeAll order = table.prune entry :=
    remove_all_same order (table.unreachable entry) table indexed fun label => each.mem_iff
  rw [same]
  refine ⟨rfl, prune_blocks entry table indexed, ?_, prune_unreachable entry table indexed,
    prune_postorder entry table indexed, prune_reachable_from entry table indexed, ?_⟩
  · intro label
    rw [prune_label_iff entry table indexed, reachable_from_iff table indexed]
  · rintro convention body pruned rfl content left accepted
    simp only [Body.problems, content] at accepted
    have wellFormed := (table_problems_nil_iff _ table indexed).mp accepted
    simp only [Body.problems, left]
    exact prune_problems _ table indexed wellFormed true

def spinningBlocks : List Block :=
  [⟨.entry, [⟨.synthetic, .jump .entry⟩]⟩,
    ⟨⟨"island"⟩, [⟨.synthetic, .jump .exit⟩, ⟨.synthetic, .liveEnd "x"⟩]⟩,
    ⟨.exit, []⟩]

theorem spinning_path_iff (label : Label) :
    (BlockTable.ofList spinningBlocks).Path .entry label ↔ label = .entry := by
  have leads : ∀ block ∈ spinningBlocks, block.label = .entry → ∀ target ∈ block.successors, target = .entry := by
    decide
  have stays : (BlockTable.ofList spinningBlocks).ClosedFrom .entry (· = .entry) := by
    refine ⟨rfl, fun source target atEntry edge => ?_⟩
    obtain ⟨⟨block, member, same, named⟩, -⟩ := (of_list_edge_iff spinningBlocks (by decide) source target).mp edge
    exact leads block member (same.trans atEntry) target named
  constructor
  · exact path_held _ .entry label _ stays
  · rintro rfl
    exact .refl

theorem spinning_well_formed :
    (BlockTable.ofList spinningBlocks).WellFormed { requireReachable := false } :=
  of_list_well_formed _ spinningBlocks (by decide) (by decide) (by decide) (by decide) (by decide) nofun

theorem spinning_body_pruned :
    let table := BlockTable.ofList spinningBlocks
    let body : Body := ⟨"spin.src", .synthetic, ∅, .blocks table⟩
    let pruned : Body := ⟨"spin.src", .synthetic, ∅, .blocks (table.removeAll [.exit, ⟨"island"⟩])⟩
    table.Built ∧ [Label.exit, ⟨"island"⟩].Perm (table.unreachable .entry) ∧
      body.problems { requireReachable := false } = [] ∧ pruned.problems {} = [.missingExit .exit] := by
  intro table body pruned
  have built : table.Built := .ofList spinningBlocks
  have indexed := built_indexed table built
  have labels : table.labels = [.entry, ⟨"island"⟩, .exit] := of_list_labels spinningBlocks (by decide)
  have lost : ∀ label, label ∈ table.unreachable .entry ↔ label ∈ [Label.exit, ⟨"island"⟩] := by
    intro label
    rw [unreachable_iff table indexed, labels, spinning_path_iff]
    by_cases isEntry : label = .entry
    · subst isEntry
      decide
    · simp [isEntry, or_comm]
  have distinct := (unreachable_sublist table .entry).nodup (indexed_labels_nodup table indexed)
  have each : [Label.exit, ⟨"island"⟩].Perm (table.unreachable .entry) :=
    (List.perm_ext_iff_of_nodup (by decide) distinct).mpr fun label => (lost label).symm
  have accepted : body.problems { requireReachable := false } = [] :=
    (table_problems_nil_iff _ table indexed).mpr spinning_well_formed
  have missed : Label.exit ∉ table.reachableFrom .entry := by
    rw [reachable_from_iff table indexed, spinning_path_iff]
    exact fun reached => absurd reached.2 (by decide)
  obtain ⟨-, -, -, -, -, -, verdict⟩ := pruning_exact table built .entry _ each
  have reported := verdict {} body pruned rfl rfl rfl accepted
  rw [if_neg missed] at reported
  exact ⟨built, each, accepted, reported⟩

end MidIR
