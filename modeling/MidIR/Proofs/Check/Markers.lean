import MidIR.Proofs.Check.WellFormed
import MidIR.Proofs.Graph.Flow

set_option autoImplicit false

namespace MidIR

-- The bodies that inserting markers leads to, one at a time. A position behind the end of a block
-- takes no marker.
inductive Body.Annotated (body : Body) : Body → Prop where
  | plain : Annotated body body
  | marker (annotated : Body) (table : BlockTable) (label : Label) (position : Nat) (marker : Instr)
      (previous : Annotated body annotated) (content : annotated.payload = .blocks table)
      (isMarker : marker.op.IsMarker) :
      Annotated body
        { annotated with payload := .blocks (table.edit label fun instrs => instrs.insertIdx position marker) }

structure BlockTable.SameBare (a b : BlockTable) : Prop where
  index : a.index = b.index
  bare : a.blocks.map Block.bare = b.blocks.map Block.bare

theorem edit_marker_bare (table : BlockTable) (label : Label) (position : Nat) (marker : Instr)
    (isMarker : marker.op.IsMarker) :
    (table.edit label fun instrs => instrs.insertIdx position marker).SameBare table := by
  refine ⟨edit_index label _ table, edit_view Block.bare label _ table ?_⟩
  intro block
  exact insert_marker_bare block position marker isMarker

theorem annotated_same_bare (body annotated : Body) (table : BlockTable) (content : body.payload = .blocks table)
    (added : body.Annotated annotated) :
    ∃ other, annotated.payload = .blocks other ∧ other.SameBare table := by
  induction added with
  | plain => exact ⟨table, content, rfl, rfl⟩
  | marker annotated before label position marker _ held isMarker ih =>
      obtain ⟨other, also, index, bare⟩ := ih
      obtain rfl : before = other := Payload.blocks.inj (held.symm.trans also)
      have step := edit_marker_bare before label position marker isMarker
      exact ⟨_, rfl, step.index.trans index, step.bare.trans bare⟩

theorem same_bare_view {α : Type} (a b : BlockTable) (same : a.SameBare b) (view : Block → α)
    (silent : ∀ block, view block.bare = view block) : a.blocks.map view = b.blocks.map view := by
  have through : ∀ table : BlockTable, table.blocks.map view = (table.blocks.map Block.bare).map view := by
    intro table
    simp [Function.comp_def, silent]
  rw [through, through, same.bare]

theorem same_bare_flow (a b : BlockTable) (same : a.SameBare b) : a.SameFlow b := by
  refine ⟨same.index, same_bare_view a b same Block.flow ?_⟩
  intro block
  rw [Block.flow, Block.flow, bare_successors, bare_targets]
  rfl

theorem same_bare_problem_count (convention : Convention) (a b : BlockTable) (same : a.SameBare b) :
    (a.problems convention).length = (b.problems convention).length := by
  have flow := same_bare_flow a b same
  have shapes := same_bare_view a b same (fun block => (block.shapeProblems convention.exit).length)
    (bare_problem_count convention.exit)
  have counted : (a.blocks.flatMap (Block.shapeProblems convention.exit)).length =
      (b.blocks.flatMap (Block.shapeProblems convention.exit)).length := by
    rw [List.length_flatMap, List.length_flatMap, shapes]
  simp only [BlockTable.problems, BlockTable.missingLabels, BlockTable.unreachableProblems, List.length_append,
    List.length_map, counted, same_flow_contains a b flow, same_flow_dangling a b flow, same_flow_unreachable a b flow]

theorem same_bare_max_temp (a b : BlockTable) (same : a.SameBare b) :
    (a.blocks.filterMap Block.maxTemp?).max? = (b.blocks.filterMap Block.maxTemp?).max? := by
  have temps := same_bare_view a b same Block.maxTemp? bare_max_temp
  have collected : ∀ table : BlockTable,
      table.blocks.filterMap Block.maxTemp? = (table.blocks.map Block.maxTemp?).filterMap id := by
    intro table
    simp
  rw [collected, collected, temps]

theorem markers_are_metadata (body annotated : Body) (table : BlockTable)
    (content : body.payload = .blocks table) (added : body.Annotated annotated) :
    ∃ other, annotated.payload = .blocks other ∧
      (∀ label, other.successors label = table.successors label) ∧
      other.predecessors = table.predecessors ∧
      (∀ label, other.reachableFrom label = table.reachableFrom label) ∧
      (∀ label, other.unreachable label = table.unreachable label) ∧
      (∀ label, other.postorder label = table.postorder label) ∧
      other.danglingTargets = table.danglingTargets ∧
      annotated.maxTemp? = body.maxTemp? ∧
      ∀ convention,
        (annotated.problems convention).length = (body.problems convention).length ∧
          (annotated.validate convention = .ok () ↔ body.validate convention = .ok ()) := by
  obtain ⟨other, also, same⟩ := annotated_same_bare body annotated table content added
  have flow := same_bare_flow other table same
  have counts : ∀ convention, (annotated.problems convention).length = (body.problems convention).length := by
    intro convention
    simpa only [Body.problems, content, also] using same_bare_problem_count convention other table same
  refine ⟨other, also, same_flow_successors other table flow, same_flow_predecessors other table flow,
    same_flow_reachable other table flow, same_flow_unreachable other table flow,
    same_flow_postorder other table flow, same_flow_dangling other table flow, ?_, ?_⟩
  · simpa only [Body.maxTemp?, content, also] using same_bare_max_temp other table same
  · intro convention
    refine ⟨counts convention, ?_⟩
    rw [validate_ok_iff, validate_ok_iff, ← List.length_eq_zero_iff, counts, List.length_eq_zero_iff]

theorem markers_in_two_blocks :
    let table := BlockTable.ofList [⟨.entry, [⟨.synthetic, .jump .exit⟩]⟩, ⟨⟨"gap"⟩, []⟩, ⟨.exit, []⟩]
    let body : Body := ⟨"gap.src", .synthetic, ∅, .blocks table⟩
    let once := table.edit .entry fun instrs => instrs.insertIdx 1 ⟨.synthetic, .liveEnd "x"⟩
    let twice := once.edit ⟨"gap"⟩ fun instrs => instrs.insertIdx 0 ⟨.synthetic, .liveStart "y" ⟨"Int"⟩⟩
    let annotated : Body := ⟨"gap.src", .synthetic, ∅, .blocks twice⟩
    body.payload = .blocks table ∧ body.Annotated annotated ∧
      (annotated.problems {}).length = (body.problems {}).length ∧
        (annotated.validate {} = .ok () ↔ body.validate {} = .ok ()) := by
  intro table body once twice annotated
  have first : body.Annotated ⟨"gap.src", .synthetic, ∅, .blocks once⟩ :=
    .marker body table .entry 1 _ .plain rfl (.liveEnd "x")
  have second : body.Annotated annotated := .marker _ once ⟨"gap"⟩ 0 _ first rfl (.liveStart "y" ⟨"Int"⟩)
  obtain ⟨other, -, -, -, -, -, -, -, -, verdict⟩ := markers_are_metadata body annotated table rfl second
  exact ⟨rfl, second, verdict {}⟩

end MidIR
