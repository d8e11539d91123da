import MidIR.Proofs.Graph.References
import MidIR.Proofs.Table.History
import MidIR.Proofs.Table.Removal

set_option autoImplicit false

namespace MidIR

theorem kept_references (label : Label) (blocks : List Block) :
    (blocks.filter fun block => block.label ≠ label).flatMap Block.references =
      (blocks.flatMap Block.references).filter fun pair => pair.1 ≠ label := by
  induction blocks with
  | nil => rfl
  | cons block rest ih =>
      have own := reference_source block
      rw [List.flatMap_cons, List.filter_append, ← ih]
      by_cases same : block.label = label
      · have gone : (block.references.filter fun pair => pair.1 ≠ label) = [] :=
          List.filter_eq_nil_iff.mpr fun pair member => by simp [own pair member, same]
        rw [List.filter_cons_of_neg (by simp [same]), gone, List.nil_append]
      · have whole : (block.references.filter fun pair => pair.1 ≠ label) = block.references :=
          List.filter_eq_self.mpr fun pair member => by simp [own pair member, same]
        rw [List.filter_cons_of_pos (by simp [same]), List.flatMap_cons, whole]

section Indexed

variable (table : BlockTable) (indexed : table.Indexed)

include indexed

theorem remove_references (label : Label) :
    (table.remove label).2.references = table.references.filter fun pair => pair.1 ≠ label := by
  rw [BlockTable.references, remove_blocks label table indexed, kept_references, BlockTable.references]

theorem remove_dangling (label : Label) :
    (table.remove label).2.danglingTargets =
      table.references.filter fun pair => pair.1 ≠ label ∧ (pair ∈ table.danglingTargets ∨ pair.2 = label) := by
  rw [dangling_references _ (remove_indexed label table indexed), remove_references table indexed,
    List.filter_filter]
  refine List.filter_congr fun pair member => ?_
  rw [← Bool.decide_and, decide_eq_decide, remove_labels_filter label table indexed, List.mem_filter,
    decide_eq_true_iff, dangling_iff_missing table indexed pair member]
  tauto

-- Apart from the references to it, removing a block costs the list no more than those from it.
theorem remove_dangling_old (label : Label) (present : label ∈ table.labels) :
    ((table.remove label).2.danglingTargets.filter fun pair => pair.2 ≠ label) =
      table.danglingTargets.filter fun pair => pair.1 ≠ label := by
  rw [remove_dangling table indexed, dangling_references table indexed, List.filter_filter, List.filter_filter]
  refine List.filter_congr fun pair member => ?_
  have named : pair.2 ∉ table.labels → pair.2 ≠ label := fun missing same => missing (same ▸ present)
  have dangled := dangling_iff_missing table indexed pair member
  rw [dangling_references table indexed] at dangled
  rw [← Bool.decide_and, ← Bool.decide_and, decide_eq_decide, dangled]
  tauto

theorem remove_dangling_new (label : Label) :
    ((table.remove label).2.danglingTargets.filter fun pair => pair.2 = label) =
      table.references.filter fun pair => pair.1 ≠ label ∧ pair.2 = label := by
  rw [remove_dangling table indexed, List.filter_filter]
  refine List.filter_congr fun pair _ => ?_
  rw [← Bool.decide_and, decide_eq_decide]
  tauto

theorem insert_references (block : Block) (absent : block.label ∉ table.labels) :
    (table.insert block).2.references = table.references ++ block.references := by
  have missing := (indexed_position_none_iff table indexed block.label).mpr absent
  simp [BlockTable.references, insert_absent block table missing]

theorem insert_dangling (block : Block) (absent : block.label ∉ table.labels) :
    (table.insert block).2.danglingTargets =
      (table.danglingTargets.filter fun pair => pair.2 ≠ block.label) ++
        block.references.filter fun pair => pair.2 ∉ table.labels ∧ pair.2 ≠ block.label := by
  have missing := (indexed_position_none_iff table indexed block.label).mpr absent
  have labels : ∀ label, label ∉ (table.insert block).2.labels ↔ label ∉ table.labels ∧ label ≠ block.label := by
    intro label
    simp [insert_absent_labels block table missing]
  rw [dangling_references _ (insert_indexed block table indexed), insert_references table indexed block absent,
    List.filter_append, dangling_references table indexed, List.filter_filter]
  simp only [labels, Bool.decide_and, Bool.and_comm]

end Indexed

theorem dangling_follows_edits (table : BlockTable) (built : table.Built) (label : Label) :
    (label ∈ table.labels →
      (table.remove label).2.danglingTargets = (table.references.filter fun pair =>
        pair.1 ≠ label ∧ (pair ∈ table.danglingTargets ∨ pair.2 = label)) ∧
      ((table.remove label).2.danglingTargets.filter fun pair => pair.2 ≠ label) =
        (table.danglingTargets.filter fun pair => pair.1 ≠ label) ∧
      ((table.remove label).2.danglingTargets.filter fun pair => pair.2 = label) =
        table.references.filter fun pair => pair.1 ≠ label ∧ pair.2 = label) ∧
    (label ∉ table.labels → ∀ block : Block, block.label = label →
      (table.insert block).2.danglingTargets =
        (table.danglingTargets.filter fun pair => pair.2 ≠ label) ++
          block.references.filter fun pair => pair.2 ∉ table.labels ∧ pair.2 ≠ label) := by
  have indexed := built_indexed table built
  refine ⟨fun present => ⟨remove_dangling table indexed label, remove_dangling_old table indexed label present,
    remove_dangling_new table indexed label⟩, ?_⟩
  intro absent block named
  subst named
  exact insert_dangling table indexed block absent

def brokenLinkBlocks : List Block :=
  [⟨⟨"top"⟩, [⟨.synthetic, .jump ⟨"ghost"⟩⟩, ⟨.synthetic, .branch (.var .localVar "x") ⟨"mid"⟩ ⟨"mid"⟩⟩]⟩,
    ⟨⟨"mid"⟩, [⟨.synthetic, .branchNone (.var .localVar "x") ⟨"mid"⟩ ⟨"ghost"⟩⟩]⟩,
    ⟨⟨"low"⟩, [⟨.synthetic, .jump ⟨"mid"⟩⟩, ⟨.synthetic, .jump ⟨"ghost"⟩⟩]⟩]

def ghostBlock : Block :=
  ⟨⟨"ghost"⟩, [⟨.synthetic, .branch (.var .localVar "x") ⟨"ghost"⟩ ⟨"lost"⟩⟩]⟩

theorem middle_removed_ghost_inserted :
    let table := BlockTable.ofList brokenLinkBlocks
    table.Built ∧ ⟨"mid"⟩ ∈ table.labels ∧ ⟨"ghost"⟩ ∉ table.labels ∧
      (table.remove ⟨"mid"⟩).2.danglingTargets =
        [(⟨"top"⟩, ⟨"ghost"⟩), (⟨"top"⟩, ⟨"mid"⟩), (⟨"top"⟩, ⟨"mid"⟩), (⟨"low"⟩, ⟨"mid"⟩), (⟨"low"⟩, ⟨"ghost"⟩)] ∧
      (table.insert ghostBlock).2.danglingTargets = [(⟨"ghost"⟩, ⟨"lost"⟩)] := by
  intro table
  have built : table.Built := .ofList brokenLinkBlocks
  have blocks : table.blocks = brokenLinkBlocks := of_list_blocks brokenLinkBlocks (by decide)
  have labels : table.labels = [⟨"top"⟩, ⟨"mid"⟩, ⟨"low"⟩] := congrArg (List.map Block.label) blocks
  have references : table.references = brokenLinkBlocks.flatMap Block.references :=
    congrArg (List.flatMap Block.references) blocks
  have dangling : table.danglingTargets = [(⟨"top"⟩, ⟨"ghost"⟩), (⟨"mid"⟩, ⟨"ghost"⟩), (⟨"low"⟩, ⟨"ghost"⟩)] := by
    rw [dangling_references table (built_indexed table built), references, labels]
    decide
  have present : ⟨"mid"⟩ ∈ table.labels := labels ▸ by decide
  have absent : ⟨"ghost"⟩ ∉ table.labels := labels ▸ by decide
  obtain ⟨removed, -, -⟩ := (dangling_follows_edits table built ⟨"mid"⟩).1 present
  have inserted := (dangling_follows_edits table built ⟨"ghost"⟩).2 absent ghostBlock rfl
  refine ⟨built, present, absent, ?_, ?_⟩
  · rw [removed, dangling, references]
    decide
  · rw [inserted, dangling, labels]
    decide

end MidIR
