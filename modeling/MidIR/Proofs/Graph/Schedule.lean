import MidIR.Proofs.Graph.Predecessors
import MidIR.Proofs.Graph.Reachable
import MidIR.Proofs.Graph.Recursion

set_option autoImplicit false

namespace MidIR

def BlockTable.Acyclic (table : BlockTable) : Prop := ∀ label, ¬ Relation.TransGen table.Edge label label

theorem acyclic_of_rank (table : BlockTable) (rank : Label → Nat)
    (rises : ∀ source target, table.Edge source target → rank source < rank target) : table.Acyclic := by
  intro label cycle
  have climbs : ∀ target, Relation.TransGen table.Edge label target → rank label < rank target := by
    intro target path
    induction path with
    | single edge => exact rises _ _ edge
    | tail _ edge ih => exact Nat.lt_trans ih (rises _ _ edge)
  exact Nat.lt_irrefl _ (climbs label cycle)

theorem acyclic_no_return (table : BlockTable) (acyclic : table.Acyclic) (source target : Label)
    (edge : table.Edge source target) : ¬ table.Path target source :=
  fun path => acyclic source (.head' edge path)

theorem precedes_reverse (order : List Label) (a b : Label) (before : Precedes order a b) :
    Precedes order.reverse b a :=
  before.reverse

theorem postorder_schedule (table : BlockTable) (indexed : table.Indexed) (entry : Label) :
    table.Schedule [entry] (· ∈ ([] : List Label)) (table.postorder entry) := by
  obtain ⟨order, finished, -, schedule⟩ := explore_adds table indexed [entry] .start
  have same : table.postorder entry = order := by
    rw [postorder_depth_first table indexed, BlockTable.depthFirst, finished]
    rfl
  exact same ▸ schedule

theorem postorder_last (table : BlockTable) (indexed : table.Indexed) (entry : Label)
    (present : entry ∈ table.labels) : (table.postorder entry).getLast? = some entry := by
  have fresh : entry ∈ table.unseen .start := (unseen_iff table _ entry).mpr ⟨present, List.not_mem_nil⟩
  rw [postorder_depth_first table indexed, BlockTable.depthFirst, explore_fresh table entry [] _ fresh, explore_nil,
    Search.leave, List.getLast?_concat]

theorem postorder_unreachable_disjoint (table : BlockTable) (indexed : table.Indexed) (entry : Label) :
    (table.postorder entry).Disjoint (table.unreachable entry) := by
  intro label listed missed
  exact ((unreachable_iff table indexed entry label).mp missed).2 ((postorder_iff table indexed entry label).mp listed)

theorem postorder_or_unreachable (table : BlockTable) (indexed : table.Indexed) (entry label : Label) :
    label ∈ table.postorder entry ++ table.unreachable entry ↔ label ∈ table.labels := by
  rw [List.mem_append, postorder_iff table indexed, unreachable_iff table indexed]
  constructor
  · rintro (⟨present, path⟩ | ⟨present, -⟩)
    · exact path_present table entry label present path
    · exact present
  · intro present
    by_cases reached : entry ∈ table.labels ∧ table.Path entry label
    · exact Or.inl reached
    · exact Or.inr ⟨present, reached⟩

theorem postorder_schedules (table : BlockTable) (built : table.Built) (entry : Label) :
    (table.postorder entry).Nodup ∧
      (∀ source ∈ table.postorder entry, ∀ target, table.Edge source target →
        Precedes (table.postorder entry) target source ∨ table.Path target source) ∧
      (table.Acyclic → ∀ source ∈ table.postorder entry, ∀ target, table.Edge source target →
        Precedes (table.postorder entry).reverse source target) ∧
      ∀ label ∈ table.postorder entry, label ≠ entry →
        ∃ sources, table.predecessors[label]? = some sources ∧
          ∃ source ∈ sources, Precedes (table.postorder entry) label source := by
  have indexed := built_indexed table built
  have schedule := postorder_schedule table indexed entry
  have sorted : ∀ source ∈ table.postorder entry, ∀ target, table.Edge source target →
      Precedes (table.postorder entry) target source ∨ table.Path target source :=
    fun source member target edge => (schedule.edges source member target edge).resolve_left List.not_mem_nil
  refine ⟨postorder_nodup table indexed entry, sorted, ?_, ?_⟩
  · intro acyclic source member target edge
    have before := (sorted source member target edge).resolve_right (acyclic_no_return table acyclic source target edge)
    exact precedes_reverse _ target source before
  · intro label member different
    rcases schedule.sources label member with asked | ⟨source, edge, before⟩
    · exact absurd (List.mem_singleton.mp asked) different
    · obtain ⟨sources, listed, among⟩ := edge_predecessor table source label edge
      exact ⟨sources, listed, source, among, before⟩

def fannedBlocks : List Block :=
  [⟨⟨"top"⟩, [⟨.synthetic, .branch (.var .localVar "x") ⟨"near"⟩ ⟨"far"⟩⟩]⟩,
    ⟨⟨"near"⟩, [⟨.synthetic, .jump ⟨"far"⟩⟩]⟩,
    ⟨⟨"far"⟩, [⟨.synthetic, .jump ⟨"ghost"⟩⟩]⟩]

theorem fanned_table_scheduled :
    let table := BlockTable.ofList fannedBlocks
    table.Built ∧ table.Acyclic ∧ table.Edge ⟨"near"⟩ ⟨"far"⟩ ∧
      Precedes (table.postorder ⟨"top"⟩).reverse ⟨"near"⟩ ⟨"far"⟩ ∧
      ∃ sources, table.predecessors[(⟨"near"⟩ : Label)]? = some sources ∧
        ∃ source ∈ sources, Precedes (table.postorder ⟨"top"⟩) ⟨"near"⟩ source := by
  intro table
  have built : table.Built := .ofList fannedBlocks
  have edge := of_list_edge_iff fannedBlocks (by decide)
  -- All jumps lead down the list of blocks, the one that dangles out of it.
  have downward : ∀ block ∈ fannedBlocks, ∀ target ∈ block.successors,
      (fannedBlocks.map Block.label).idxOf block.label < (fannedBlocks.map Block.label).idxOf target := by decide
  have acyclic : table.Acyclic := by
    refine acyclic_of_rank table (fannedBlocks.map Block.label).idxOf fun source target hop => ?_
    obtain ⟨⟨block, member, rfl, leads⟩, -⟩ := (edge source target).mp hop
    exact downward block member target leads
  have topNear : table.Edge ⟨"top"⟩ ⟨"near"⟩ := (edge _ _).mpr (by decide)
  have nearFar : table.Edge ⟨"near"⟩ ⟨"far"⟩ := (edge _ _).mpr (by decide)
  have listed : ⟨"near"⟩ ∈ table.postorder ⟨"top"⟩ := by
    rw [postorder_iff table (built_indexed table built), of_list_labels fannedBlocks (by decide)]
    exact ⟨by decide, .single topNear⟩
  obtain ⟨-, -, sorted, preceded⟩ := postorder_schedules table built ⟨"top"⟩
  exact ⟨built, acyclic, nearFar, sorted acyclic _ listed _ nearFar, preceded _ listed (by decide)⟩

theorem postorder_covers (table : BlockTable) (built : table.Built) (entry : Label) :
    (∀ label, label ∈ table.postorder entry ↔ label ∈ table.reachableFrom entry) ∧
      (table.postorder entry).Nodup ∧
      (entry ∈ table.labels → (table.postorder entry).getLast? = some entry) ∧
      (entry ∉ table.labels → table.postorder entry = []) ∧
      (table.postorder entry ++ table.unreachable entry).Perm table.labels := by
  have indexed := built_indexed table built
  have distinct := postorder_nodup table indexed entry
  have labels := indexed_labels_nodup table indexed
  have together : (table.postorder entry ++ table.unreachable entry).Nodup :=
    distinct.append ((unreachable_sublist table entry).nodup labels)
      (postorder_unreachable_disjoint table indexed entry)
  refine ⟨?_, distinct, postorder_last table indexed entry, postorder_absent table indexed entry, ?_⟩
  · intro label
    rw [postorder_iff table indexed, reachable_from_iff table indexed]
  · exact (List.perm_ext_iff_of_nodup together labels).mpr (postorder_or_unreachable table indexed entry)

theorem stuck_table_covered :
    let table := BlockTable.ofList stuckBlocks
    table.Built ∧ ⟨"loop"⟩ ∈ table.postorder .entry ∧ (table.postorder .entry).getLast? = some .entry ∧
      (table.postorder .entry ++ table.unreachable .entry).Perm [.entry, ⟨"loop"⟩, ⟨"island"⟩] ∧
      table.postorder ⟨"ghost"⟩ = [] := by
  intro table
  have built : table.Built := .ofList stuckBlocks
  have labels : table.labels = [.entry, ⟨"loop"⟩, ⟨"island"⟩] := of_list_labels stuckBlocks (by decide)
  have looped : table.Edge .entry ⟨"loop"⟩ := (of_list_edge_iff stuckBlocks (by decide) _ _).mpr (by decide)
  have reached : ⟨"loop"⟩ ∈ table.reachableFrom .entry :=
    (reachable_from_iff table (built_indexed table built) _ _).mpr ⟨labels ▸ by decide, .single looped⟩
  obtain ⟨same, -, last, -, whole⟩ := postorder_covers table built .entry
  obtain ⟨-, -, -, nothing, -⟩ := postorder_covers table built ⟨"ghost"⟩
  exact ⟨built, (same _).mpr reached, last (labels ▸ by decide), labels ▸ whole, nothing (labels ▸ by decide)⟩

end MidIR
