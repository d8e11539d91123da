import MidIR.Proofs.Graph.Path
import MidIR.Proofs.Table.History

set_option autoImplicit false

namespace MidIR

-- Labels that control does not leave once it is there.
structure BlockTable.ClosedFrom (table : BlockTable) (start : Label) (held : Label → Prop) : Prop where
  start : held start
  edges : ∀ source target, held source → table.Edge source target → held target

theorem of_list_edge_iff (blocks : List Block) (distinct : (blocks.map Block.label).Nodup)
    (source target : Label) :
    (BlockTable.ofList blocks).Edge source target ↔
      (∃ block ∈ blocks, block.label = source ∧ target ∈ block.successors) ∧
        target ∈ blocks.map Block.label := by
  rw [edge_iff_named, of_list_blocks blocks distinct, of_list_labels blocks distinct]

theorem path_closed (table : BlockTable) (start : Label) : table.ClosedFrom start (table.Path start) :=
  ⟨.refl, fun _ _ path edge => path.tail edge⟩

theorem path_held (table : BlockTable) (start label : Label) (held : Label → Prop)
    (closed : table.ClosedFrom start held) (path : table.Path start label) : held label := by
  induction path with
  | refl => exact closed.start
  | tail _ edge ih => exact closed.edges _ _ ih edge

theorem reachable_from_absent (table : BlockTable) (indexed : table.Indexed) (start : Label)
    (absent : start ∉ table.labels) : table.reachableFrom start = ∅ := by
  apply Std.ExtHashSet.ext_mem
  intro label
  simp [reachable_from_iff table indexed, absent]

theorem reachable_from_present (table : BlockTable) (indexed : table.Indexed) (start : Label)
    (present : start ∈ table.labels) (label : Label) :
    label ∈ table.reachableFrom start ↔ table.Path start label := by
  rw [reachable_from_iff table indexed]
  exact and_iff_right present

theorem unreachable_sublist (table : BlockTable) (entry : Label) :
    (table.unreachable entry).Sublist table.labels :=
  List.filter_sublist

theorem reachability_exact (table : BlockTable) (built : table.Built) (start : Label) :
    (start ∉ table.labels → table.reachableFrom start = ∅) ∧
      (start ∈ table.labels →
        (∀ label, label ∈ table.reachableFrom start ↔ table.Path start label) ∧
          table.ClosedFrom start (· ∈ table.reachableFrom start) ∧
          ∀ held : Label → Prop, table.ClosedFrom start held → ∀ label ∈ table.reachableFrom start, held label) ∧
      (table.unreachable start).Sublist table.labels ∧
      (table.unreachable start).Nodup ∧
      ∀ label, label ∈ table.unreachable start ↔ label ∈ table.labels ∧ label ∉ table.reachableFrom start := by
  have indexed := built_indexed table built
  have listed := unreachable_sublist table start
  refine ⟨reachable_from_absent table indexed start, ?_, listed,
    listed.nodup (indexed_labels_nodup table indexed), ?_⟩
  · intro present
    have reached := reachable_from_present table indexed start present
    refine ⟨reached, ?_, ?_⟩
    · simpa only [reached] using path_closed table start
    · intro held closed label member
      exact path_held table start label held closed ((reached label).mp member)
  · intro label
    rw [unreachable_iff table indexed, reachable_from_iff table indexed]

def stuckBlocks : List Block :=
  [⟨.entry, [⟨.synthetic, .branch (.var .localVar "x") ⟨"loop"⟩ ⟨"loop"⟩⟩]⟩,
    ⟨⟨"loop"⟩, [⟨.synthetic, .branchNone (.var .localVar "x") ⟨"ghost"⟩ ⟨"loop"⟩⟩]⟩,
    ⟨⟨"island"⟩, [⟨.synthetic, .jump .entry⟩]⟩]

theorem stuck_table_reachable :
    (BlockTable.ofList stuckBlocks).Built ∧
      ⟨"loop"⟩ ∈ (BlockTable.ofList stuckBlocks).reachableFrom .entry ∧
      ⟨"island"⟩ ∈ (BlockTable.ofList stuckBlocks).unreachable .entry ∧
      (BlockTable.ofList stuckBlocks).reachableFrom ⟨"ghost"⟩ = ∅ := by
  have built : (BlockTable.ofList stuckBlocks).Built := .ofList stuckBlocks
  have labels := of_list_labels stuckBlocks (by decide)
  have edge := of_list_edge_iff stuckBlocks (by decide)
  obtain ⟨-, present, -, -, others⟩ := reachability_exact _ built .entry
  obtain ⟨reached, -, least⟩ := present (labels ▸ by decide)
  have looped : (BlockTable.ofList stuckBlocks).Edge .entry ⟨"loop"⟩ := (edge _ _).mpr (by decide)
  have stays : (BlockTable.ofList stuckBlocks).ClosedFrom .entry fun label => label ≠ ⟨"island"⟩ := by
    have named : ∀ block ∈ stuckBlocks, ⟨"island"⟩ ∉ block.successors := by decide
    refine ⟨by decide, fun source target _ hop => ?_⟩
    obtain ⟨⟨block, member, -, leads⟩, -⟩ := (edge source target).mp hop
    rintro rfl
    exact named block member leads
  refine ⟨built, (reached _).mpr (.single looped), (others _).mpr ⟨labels ▸ by decide, ?_⟩, ?_⟩
  · intro member
    exact least _ stays _ member rfl
  · exact (reachability_exact _ built ⟨"ghost"⟩).1 (labels ▸ by decide)

end MidIR
