import MidIR.Proofs.Graph.Carried
import MidIR.Proofs.Graph.Recursion

set_option autoImplicit false

namespace MidIR

-- The blocks of some labels, in an order of their own. Control does not leave them.
structure BlockTable.Part (whole part : BlockTable) (kept : Label → Prop) : Prop where
  indexed : whole.Indexed
  also : part.Indexed
  blocks : ∀ block, block ∈ part.blocks ↔ block ∈ whole.blocks ∧ kept block.label
  closed : ∀ source target, kept source → whole.Edge source target → kept target

section Part

variable {whole part : BlockTable} {kept : Label → Prop} (carved : whole.Part part kept)

include carved

theorem part_label_iff (label : Label) :
    label ∈ part.labels ↔ label ∈ whole.labels ∧ kept label := by
  simp only [BlockTable.labels, List.mem_map, carved.blocks]
  constructor
  · rintro ⟨block, ⟨member, keeps⟩, rfl⟩
    exact ⟨⟨block, member, rfl⟩, keeps⟩
  · rintro ⟨⟨block, member, rfl⟩, keeps⟩
    exact ⟨block, ⟨member, keeps⟩, rfl⟩

theorem part_edge (source target : Label) (edge : part.Edge source target) : whole.Edge source target := by
  obtain ⟨⟨block, member, same, leads⟩, present⟩ := edge
  exact ⟨⟨block, ((carved.blocks block).mp member).1, same, leads⟩,
    ((part_label_iff carved target).mp present).1⟩

theorem whole_edge (source target : Label) (keeps : kept source) (edge : whole.Edge source target) :
    part.Edge source target := by
  obtain ⟨⟨block, member, rfl, leads⟩, present⟩ := edge
  have targetKept := carved.closed block.label target keeps ⟨⟨block, member, rfl, leads⟩, present⟩
  exact ⟨⟨block, (carved.blocks block).mpr ⟨member, keeps⟩, rfl, leads⟩,
    (part_label_iff carved target).mpr ⟨present, targetKept⟩⟩

theorem part_path_iff (source target : Label) (keeps : kept source) :
    part.Path source target ↔ whole.Path source target := by
  constructor
  · exact Relation.ReflTransGen.mono (part_edge carved) source target
  · intro path
    -- Along the way every label is kept, and so is the edge behind it.
    have stays : kept target ∧ part.Path source target := by
      induction path with
      | refl => exact ⟨keeps, .refl⟩
      | tail _ edge ih =>
          exact ⟨carved.closed _ _ ih.1 edge, ih.2.tail (whole_edge carved _ _ ih.1 edge)⟩
    exact stays.2

theorem part_reachable_from (start : Label) (present : start ∈ part.labels) :
    part.reachableFrom start = whole.reachableFrom start := by
  obtain ⟨inWhole, keeps⟩ := (part_label_iff carved start).mp present
  apply Std.ExtHashSet.ext_mem
  intro label
  simp only [reachable_from_iff part carved.also, reachable_from_iff whole carved.indexed, present, inWhole,
    part_path_iff carved start label keeps]

theorem part_get (label : Label) (keeps : kept label) : part.get? label = whole.get? label := by
  apply Option.ext
  intro block
  rw [indexed_get_iff part carved.also, indexed_get_iff whole carved.indexed, carved.blocks]
  constructor
  · rintro ⟨⟨member, -⟩, same⟩
    exact ⟨member, same⟩
  · rintro ⟨member, rfl⟩
    exact ⟨⟨member, keeps⟩, rfl⟩

theorem part_successors (label : Label) (keeps : kept label) :
    part.successors label = whole.successors label := by
  rw [BlockTable.successors, part_get carved label keeps, BlockTable.successors]

-- A search that asks for nothing but what is kept, or missing altogether, stays in the part.
theorem part_carries : whole.Carries part id fun label => label ∈ whole.labels → kept label := by
  refine ⟨fun _ _ _ _ same => same, ?_, ?_, ?_⟩
  · intro label near
    exact (part_label_iff carved label).trans (and_iff_left_of_imp near)
  · intro label near present
    rw [List.map_id, id_eq, part_successors carved label (near present)]
  · intro label near present target named inside
    exact carved.closed label target (near present)
      ((edge_iff_successor whole carved.indexed label target).mpr ⟨named, inside⟩)

theorem part_postorder (entry : Label) (present : entry ∈ part.labels) :
    part.postorder entry = whole.postorder entry := by
  have keeps := ((part_label_iff carved entry).mp present).2
  have carried := carried_depth_first (part_carries carved) entry fun _ => keeps
  rw [postorder_depth_first part carved.also, postorder_depth_first whole carved.indexed]
  simpa only [List.map_id, id_eq] using carried

end Part

end MidIR
