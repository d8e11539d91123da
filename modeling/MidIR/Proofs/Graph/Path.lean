import MidIR.Proofs.Block.Ending
import MidIR.Proofs.Graph.Sweep
import MidIR.Proofs.Graph.Walk
import MidIR.Proofs.Table.Index

set_option autoImplicit false

namespace MidIR

-- An edge leads from a block to another block of the table that it names at its end. Where the
-- name dangles there is no edge.
def BlockTable.Edge (table : BlockTable) (source target : Label) : Prop :=
  (∃ block ∈ table.blocks, block.label = source ∧ block.Leads target) ∧ target ∈ table.labels

theorem edge_iff_named (table : BlockTable) (source target : Label) :
    table.Edge source target ↔
      (∃ block ∈ table.blocks, block.label = source ∧ target ∈ block.successors) ∧ target ∈ table.labels := by
  simp only [BlockTable.Edge, block_successors_iff]

abbrev BlockTable.Path (table : BlockTable) : Label → Label → Prop :=
  Relation.ReflTransGen table.Edge

theorem successors_iff (table : BlockTable) (indexed : table.Indexed) (source target : Label) :
    target ∈ table.successors source ↔ ∃ block ∈ table.blocks, block.label = source ∧ block.Leads target := by
  have looked : target ∈ table.successors source ↔
      ∃ block, table.get? source = some block ∧ target ∈ block.successors := by
    rw [BlockTable.successors]
    cases table.get? source <;> simp
  simp only [looked, indexed_get_iff table indexed, block_successors_iff, and_assoc]

theorem edge_iff_successor (table : BlockTable) (indexed : table.Indexed) (source target : Label) :
    table.Edge source target ↔ target ∈ table.successors source ∧ target ∈ table.labels := by
  rw [BlockTable.Edge, successors_iff table indexed]

theorem path_present (table : BlockTable) (source target : Label) (present : source ∈ table.labels)
    (path : table.Path source target) : target ∈ table.labels := by
  cases path with
  | refl => exact present
  | tail _ edge => exact edge.2

abbrev BlockTable.Hop (table : BlockTable) (a b : Nat) : Prop :=
  MidIR.Hop table.successorPositions table.size a b

theorem position_label (table : BlockTable) (position : Nat) (inside : position < table.size) :
    ∃ label, table.labels[position]? = some label := by
  rw [← labels_length] at inside
  exact ⟨_, List.getElem?_eq_getElem inside⟩

theorem successor_positions_iff (table : BlockTable) (indexed : table.Indexed) (a b : Nat) :
    b ∈ table.successorPositions a ↔
      ∃ block target, table.blocks[a]? = some block ∧ block.Leads target ∧ table.labels[b]? = some target := by
  cases here : table.blocks[a]? with
  | none => simp [BlockTable.successorPositions, BlockTable.blockAt?, here]
  | some block =>
      simp only [BlockTable.successorPositions, BlockTable.blockAt?, here, List.mem_filterMap,
        block_successors_iff, indexed _ b]
      simp

theorem hop_iff_edge (table : BlockTable) (indexed : table.Indexed) (a b : Nat) (source target : Label)
    (atA : table.labels[a]? = some source) (atB : table.labels[b]? = some target) :
    table.Hop a b ↔ table.Edge source target := by
  rw [BlockTable.Hop, MidIR.Hop, successor_positions_iff table indexed]
  constructor
  · rintro ⟨⟨block, named, here, leads, there⟩, -⟩
    obtain rfl : target = named := Option.some.inj (atB.symm.trans there)
    obtain ⟨other, also, same⟩ := (labels_at table a source).mp atA
    obtain rfl : block = other := Option.some.inj (here.symm.trans also)
    exact ⟨⟨block, List.mem_of_getElem? here, same, leads⟩, List.mem_of_getElem? atB⟩
  · rintro ⟨⟨block, member, same, leads⟩, -⟩
    obtain ⟨i, here⟩ := List.mem_iff_getElem?.mp member
    have found := (indexed source i).mpr ((labels_at table i source).mpr ⟨block, here, same⟩)
    obtain rfl : i = a := Option.some.inj (found.symm.trans ((indexed source a).mpr atA))
    have inside : b < table.size := labels_length table ▸ (List.getElem?_eq_some_iff.mp atB).1
    exact ⟨⟨block, target, here, leads, atB⟩, inside⟩

theorem reaches_path (table : BlockTable) (indexed : table.Indexed) (a b : Nat) (source : Label)
    (atA : table.labels[a]? = some source) (reaches : Reaches table.successorPositions table.size a b) :
    ∃ target, table.labels[b]? = some target ∧ table.Path source target := by
  induction reaches with
  | refl => exact ⟨source, atA, .refl⟩
  | @tail m b _ hop ih =>
      obtain ⟨middle, atM, path⟩ := ih
      obtain ⟨target, atB⟩ := position_label table b hop.2
      exact ⟨target, atB, path.tail ((hop_iff_edge table indexed m b middle target atM atB).mp hop)⟩

theorem path_reaches (table : BlockTable) (indexed : table.Indexed) (a : Nat) (source target : Label)
    (atA : table.labels[a]? = some source) (path : table.Path source target) :
    ∃ b, table.labels[b]? = some target ∧ Reaches table.successorPositions table.size a b := by
  induction path with
  | refl => exact ⟨a, atA, .refl⟩
  | @tail middle target _ edge ih =>
      obtain ⟨m, atM, reaches⟩ := ih
      obtain ⟨b, atB⟩ := List.mem_iff_getElem?.mp edge.2
      exact ⟨b, atB, reaches.tail ((hop_iff_edge table indexed m b middle target atM atB).mpr edge)⟩

theorem reached_labels_iff (table : BlockTable) (indexed : table.Indexed) (a : Nat) (source : Label)
    (atA : table.labels[a]? = some source) (positions : List Nat)
    (complete : ∀ b, b ∈ positions ↔ Reaches table.successorPositions table.size a b) (label : Label) :
    label ∈ positions.filterMap (fun position => (table.blockAt? position).map Block.label) ↔
      table.Path source label := by
  simp only [List.mem_filterMap, label_at, complete]
  constructor
  · rintro ⟨b, reaches, atB⟩
    obtain ⟨target, also, path⟩ := reaches_path table indexed a b source atA reaches
    obtain rfl : label = target := Option.some.inj (atB.symm.trans also)
    exact path
  · intro path
    obtain ⟨b, atB, reaches⟩ := path_reaches table indexed a source label atA path
    exact ⟨b, reaches, atB⟩

theorem reachable_from_iff (table : BlockTable) (indexed : table.Indexed) (start label : Label) :
    label ∈ table.reachableFrom start ↔ start ∈ table.labels ∧ table.Path start label := by
  cases found : table.position? start with
  | none =>
      have absent := (indexed_position_none_iff table indexed start).mp found
      simp [BlockTable.reachableFrom, found, absent]
  | some position =>
      have here := (indexed start position).mp found
      have inside := indexed_position_bound table indexed start position found
      have taken := sweep_taken_iff table.successorPositions table.size position inside
      simp only [BlockTable.reachableFrom, found, Std.ExtHashSet.mem_ofList, List.contains_iff_mem,
        reached_labels_iff table indexed position start here _ taken]
      simp [List.mem_of_getElem? here]

theorem unreachable_iff (table : BlockTable) (indexed : table.Indexed) (entry label : Label) :
    label ∈ table.unreachable entry ↔
      label ∈ table.labels ∧ ¬ (entry ∈ table.labels ∧ table.Path entry label) := by
  rw [← reachable_from_iff table indexed]
  simp only [BlockTable.unreachable, List.mem_filter, Bool.not_eq_true', ← Bool.not_eq_true,
    Std.ExtHashSet.contains_iff_mem]

theorem postorder_absent (table : BlockTable) (indexed : table.Indexed) (entry : Label)
    (absent : entry ∉ table.labels) : table.postorder entry = [] := by
  simp [BlockTable.postorder, (indexed_position_none_iff table indexed entry).mpr absent]

theorem postorder_iff (table : BlockTable) (indexed : table.Indexed) (entry label : Label) :
    label ∈ table.postorder entry ↔ entry ∈ table.labels ∧ table.Path entry label := by
  cases found : table.position? entry with
  | none =>
      have absent := (indexed_position_none_iff table indexed entry).mp found
      simp [postorder_absent table indexed entry absent, absent]
  | some position =>
      have here := (indexed entry position).mp found
      have inside := indexed_position_bound table indexed entry position found
      have finished := (walk_finished table.successorPositions table.size position inside).2
      have reversed : ∀ b, b ∈ ((Walk.start table.size position).run table.successorPositions).finished.reverse ↔
          Reaches table.successorPositions table.size position b := by
        intro b
        rw [List.mem_reverse, finished]
      simp only [BlockTable.postorder, found, reached_labels_iff table indexed position entry here _ reversed]
      simp [List.mem_of_getElem? here]

theorem reachable_from_postorder (table : BlockTable) (indexed : table.Indexed) (start label : Label) :
    label ∈ table.reachableFrom start ↔ label ∈ table.postorder start := by
  rw [reachable_from_iff table indexed, postorder_iff table indexed]

theorem postorder_nodup (table : BlockTable) (indexed : table.Indexed) (entry : Label) :
    (table.postorder entry).Nodup := by
  cases found : table.position? entry with
  | none => simp [BlockTable.postorder, found]
  | some position =>
      have inside := indexed_position_bound table indexed entry position found
      have finished := (walk_finished table.successorPositions table.size position inside).1
      simp only [BlockTable.postorder, found]
      refine List.Nodup.filterMap ?_ (List.nodup_reverse.mpr finished)
      intro i j label atI atJ
      have first := (indexed label i).mpr ((label_at table i).symm.trans atI)
      have second := (indexed label j).mpr ((label_at table j).symm.trans atJ)
      exact Option.some.inj (first.symm.trans second)

end MidIR
