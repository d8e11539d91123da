import Mathlib.Data.List.Count
import Mathlib.Data.List.Lex
import MidIR.Proofs.Block.Bare
import MidIR.Proofs.Check.WellFormed

set_option autoImplicit false

namespace MidIR

-- What can be wrong with a table, said without the check.
inductive BlockTable.Violation (convention : Convention) (table : BlockTable) : Problem → Prop where
  | missingEntry (absent : convention.entry ∉ table.labels) :
      Violation convention table (.missingEntry convention.entry)
  | missingExit (absent : convention.exit ∉ table.labels) :
      Violation convention table (.missingExit convention.exit)
  | shape (block : Block) (member : block ∈ table.blocks) (problem : Problem)
      (fault : block.Fault convention.exit problem) : Violation convention table problem
  | dangling (block : Block) (member : block ∈ table.blocks) (instr : Instr) (inside : instr ∈ block.instrs)
      (target : Label) (named : instr.op.Names target) (absent : target ∉ table.labels) :
      Violation convention table (.danglingTarget block.label target)
  | unreachable (demanded : convention.requireReachable = true) (present : convention.entry ∈ table.labels)
      (label : Label) (member : label ∈ table.labels) (other : label ≠ convention.exit)
      (lost : ¬ table.Path convention.entry label) :
      Violation convention table (.unreachable label convention.entry)

def BlockTable.slots (table : BlockTable) (source target : Label) : Nat :=
  ((table.blocks.filter fun block => block.label = source).flatMap Block.targets).count target

-- A branch can name the same missing label twice. Nothing else can go wrong twice.
def BlockTable.occurrences (table : BlockTable) : Problem → Nat
  | .danglingTarget source target => table.slots source target
  | _ => 1

def Problem.part : Problem → Nat
  | .primitiveBody _ | .missingEntry _ | .missingExit _ => 0
  | .emptyBlock _ | .unterminated _ _ | .earlyTerminator _ _ _ => 1
  | .danglingTarget _ _ => 2
  | .unreachable _ _ => 3

-- Within a part the order is that of the blocks. The labels that dangle in one block share a place.
def BlockTable.placeInPart (table : BlockTable) : Problem → List Nat
  | .primitiveBody _ | .missingEntry _ => [0]
  | .missingExit _ => [1]
  | .earlyTerminator label position _ => [table.labels.idxOf label, 0, position]
  | .emptyBlock label | .unterminated label _ => [table.labels.idxOf label, 1]
  | .danglingTarget label _ | .unreachable label _ => [table.labels.idxOf label]

def BlockTable.place (table : BlockTable) (problem : Problem) : List Nat :=
  problem.part :: table.placeInPart problem

theorem missing_labels_iff (convention : Convention) (table : BlockTable) (indexed : table.Indexed)
    (problem : Problem) :
    problem ∈ table.missingLabels convention ↔
      convention.entry ∉ table.labels ∧ problem = .missingEntry convention.entry ∨
        convention.exit ∉ table.labels ∧ problem = .missingExit convention.exit := by
  simp [BlockTable.missingLabels, indexed_contains_iff table indexed]

theorem problem_iff (convention : Convention) (table : BlockTable) (indexed : table.Indexed) (problem : Problem) :
    problem ∈ table.problems convention ↔ table.Violation convention problem := by
  simp only [BlockTable.problems, List.mem_append, missing_labels_iff convention table indexed, List.mem_flatMap,
    shape_problems_iff, List.mem_map, Prod.exists, dangling_iff table indexed,
    unreachable_problems_iff convention table indexed]
  constructor
  · rintro ((((⟨absent, rfl⟩ | ⟨absent, rfl⟩) | ⟨block, member, fault⟩) |
      ⟨_, _, ⟨block, member, rfl, instr, inside, named, absent⟩, rfl⟩) |
      ⟨demanded, present, label, member, other, lost, rfl⟩)
    · exact .missingEntry absent
    · exact .missingExit absent
    · exact .shape block member problem fault
    · exact .dangling block member instr inside _ named absent
    · exact .unreachable demanded present label member other lost
  · intro violation
    cases violation with
    | missingEntry absent => exact .inl (.inl (.inl (.inl ⟨absent, rfl⟩)))
    | missingExit absent => exact .inl (.inl (.inl (.inr ⟨absent, rfl⟩)))
    | shape block member _ fault => exact .inl (.inl (.inr ⟨block, member, fault⟩))
    | dangling block member instr inside target named absent =>
        exact .inl (.inr ⟨block.label, target, ⟨block, member, rfl, instr, inside, named, absent⟩, rfl⟩)
    | unreachable demanded present label member other lost =>
        exact .inr ⟨demanded, present, label, member, other, lost, rfl⟩

-- Only two labels that dangle in one block tie.
def BlockTable.Ahead (table : BlockTable) (first second : Problem) : Prop :=
  table.place first < table.place second ∨ table.place first = table.place second ∧ first.part = 2

theorem ahead_le (table : BlockTable) (first second : Problem) (ahead : table.Ahead first second) :
    table.place first ≤ table.place second := by
  rcases ahead with before | ⟨tie, -⟩
  · exact le_of_lt before
  · exact le_of_eq tie

theorem ahead_self (table : BlockTable) (problem : Problem) (ahead : table.Ahead problem problem) :
    problem.part = 2 := by
  rcases ahead with before | ⟨-, dangles⟩
  · exact absurd before (lt_irrefl _)
  · exact dangles

theorem ahead_of_part (table : BlockTable) (first second : Problem) (earlier : first.part < second.part) :
    table.Ahead first second :=
  .inl (List.cons_lt_cons_iff.mpr (.inl earlier))

theorem ahead_in_part (table : BlockTable) (first second : Problem) (same : first.part = second.part)
    (earlier : table.placeInPart first < table.placeInPart second) : table.Ahead first second :=
  .inl (List.cons_lt_cons_iff.mpr (.inr ⟨same, earlier⟩))

theorem ahead_of_block (table : BlockTable) (first second : Problem) (same : first.part = second.part)
    (a b : Label) (restA restB : List Nat) (placeA : table.placeInPart first = table.labels.idxOf a :: restA)
    (placeB : table.placeInPart second = table.labels.idxOf b :: restB)
    (earlier : table.labels.idxOf a < table.labels.idxOf b) : table.Ahead first second := by
  refine ahead_in_part table first second same ?_
  rw [placeA, placeB]
  exact List.cons_lt_cons_iff.mpr (.inl earlier)

theorem labels_ascend (table : BlockTable) (indexed : table.Indexed) :
    table.labels.Pairwise fun a b => table.labels.idxOf a < table.labels.idxOf b := by
  have distinct := indexed_labels_nodup table indexed
  rw [List.pairwise_iff_getElem]
  intro i j insideI insideJ before
  rw [distinct.idxOf_getElem, distinct.idxOf_getElem]
  exact before

theorem blocks_ascend (table : BlockTable) (indexed : table.Indexed) :
    table.blocks.Pairwise fun a b => table.labels.idxOf a.label < table.labels.idxOf b.label := by
  have ascend := labels_ascend table indexed
  change (table.blocks.map Block.label).Pairwise _ at ascend
  rwa [List.pairwise_map] at ascend

theorem missing_labels_ahead (convention : Convention) (table : BlockTable) :
    (table.missingLabels convention).Pairwise table.Ahead := by
  have first : table.Ahead (.missingEntry convention.entry) (.missingExit convention.exit) :=
    ahead_in_part table _ _ rfl (List.cons_lt_cons_iff.mpr (.inl Nat.zero_lt_one))
  rw [BlockTable.missingLabels]
  split_ifs <;> simp [first]

theorem fault_part (exit : Label) (block : Block) (problem : Problem) (fault : block.Fault exit problem) :
    problem.part = 1 := by
  cases fault <;> rfl

theorem fault_place (exit : Label) (block : Block) (table : BlockTable) (problem : Problem)
    (fault : block.Fault exit problem) :
    ∃ rest, table.placeInPart problem = table.labels.idxOf block.label :: rest := by
  cases fault <;> exact ⟨_, rfl⟩

theorem early_terminators_ahead (table : BlockTable) (label : Label) (offset : Nat) (instrs : List Instr) :
    (earlyTerminators label offset instrs).Pairwise table.Ahead := by
  induction instrs generalizing offset with
  | nil => exact .nil
  | cons instr rest ih =>
      rw [earlyTerminators]
      split_ifs
      · refine .cons ?_ (ih (offset + 1))
        intro later listed
        rw [early_terminators_numbered, List.mem_filterMap] at listed
        obtain ⟨⟨other, position⟩, numbered, shown⟩ := listed
        obtain ⟨-, same⟩ := Option.ite_none_right_eq_some.mp shown
        obtain rfl := Option.some.inj same
        obtain ⟨beyond, -⟩ := List.mk_mem_zipIdx_iff_le_and_getElem?_sub.mp numbered
        have further : offset < position := beyond
        refine ahead_in_part table _ _ rfl ?_
        simp [BlockTable.placeInPart, List.cons_lt_cons_iff, further]
      · exact ih (offset + 1)

theorem shape_problems_ahead (exit : Label) (table : BlockTable) (block : Block) :
    (block.shapeProblems exit).Pairwise table.Ahead := by
  rcases idle_or_ends block with idle | ⟨before, last, markers, ends⟩
  · rw [idle_shape_problems exit block idle, Block.idleProblems]
    split_ifs
    · exact .nil
    · cases block.instrs.getLast? <;> exact List.pairwise_singleton _ _
  · rw [ends_shape_problems exit block before last markers ends, List.pairwise_append]
    refine ⟨early_terminators_ahead table block.label 0 before, ?_, ?_⟩
    · split_ifs
      · exact .nil
      · exact List.pairwise_singleton _ _
    · intro problem listed final also
      obtain ⟨position, instr, -, -, rfl⟩ := (early_terminators_iff block.label before problem).mp listed
      obtain rfl : final = .unterminated block.label last.op.kind := by
        split_ifs at also
        · exact absurd also List.not_mem_nil
        · exact List.mem_singleton.mp also
      refine ahead_in_part table _ _ rfl ?_
      simp [BlockTable.placeInPart, List.cons_lt_cons_iff]

theorem shapes_ahead (exit : Label) (table : BlockTable) (indexed : table.Indexed) :
    (table.blocks.flatMap (Block.shapeProblems exit)).Pairwise table.Ahead := by
  rw [List.pairwise_flatMap]
  refine ⟨fun block _ => shape_problems_ahead exit table block, (blocks_ascend table indexed).imp ?_⟩
  intro a b earlier first listed second also
  have faultA := (shape_problems_iff exit a first).mp listed
  have faultB := (shape_problems_iff exit b second).mp also
  obtain ⟨restA, placeA⟩ := fault_place exit a table first faultA
  obtain ⟨restB, placeB⟩ := fault_place exit b table second faultB
  have same := (fault_part exit a first faultA).trans (fault_part exit b second faultB).symm
  exact ahead_of_block table first second same a.label b.label restA restB placeA placeB earlier

theorem dangling_ahead (table : BlockTable) (indexed : table.Indexed) :
    (table.danglingTargets.map fun (label, target) => Problem.danglingTarget label target).Pairwise table.Ahead := by
  rw [List.pairwise_map, dangling_references table indexed]
  refine List.Pairwise.filter _ ?_
  rw [BlockTable.references, List.pairwise_flatMap]
  constructor
  · intro block _
    refine List.pairwise_of_forall_mem_list ?_
    intro first listed second also
    have same := (reference_source block first listed).trans (reference_source block second also).symm
    exact .inr ⟨by simp [BlockTable.place, BlockTable.placeInPart, Problem.part, same], rfl⟩
  · refine (blocks_ascend table indexed).imp ?_
    intro a b earlier first listed second also
    rw [← reference_source a first listed, ← reference_source b second also] at earlier
    exact ahead_of_block table _ _ rfl first.1 second.1 [] [] rfl rfl earlier

theorem unreachable_ahead (convention : Convention) (table : BlockTable) (indexed : table.Indexed) :
    (table.unreachableProblems convention).Pairwise table.Ahead := by
  rw [BlockTable.unreachableProblems]
  split_ifs
  · rw [List.pairwise_map]
    have listed := (labels_ascend table indexed).sublist (unreachable_sublist table convention.entry)
    refine List.Pairwise.filter _ (listed.imp ?_)
    intro a b earlier
    exact ahead_of_block table _ _ rfl a b [] [] rfl rfl earlier
  · exact .nil

theorem missing_labels_part (convention : Convention) (table : BlockTable) (indexed : table.Indexed)
    (problem : Problem) (listed : problem ∈ table.missingLabels convention) : problem.part = 0 := by
  rcases (missing_labels_iff convention table indexed problem).mp listed with ⟨-, rfl⟩ | ⟨-, rfl⟩ <;> rfl

theorem shapes_part (exit : Label) (table : BlockTable) (problem : Problem)
    (listed : problem ∈ table.blocks.flatMap (Block.shapeProblems exit)) : problem.part = 1 := by
  obtain ⟨block, -, inside⟩ := List.mem_flatMap.mp listed
  exact fault_part exit block problem ((shape_problems_iff exit block problem).mp inside)

theorem dangling_part (table : BlockTable) (problem : Problem)
    (listed : problem ∈ table.danglingTargets.map fun (label, target) => Problem.danglingTarget label target) :
    problem.part = 2 := by
  obtain ⟨pair, -, rfl⟩ := List.mem_map.mp listed
  rfl

theorem unreachable_part (convention : Convention) (table : BlockTable) (indexed : table.Indexed)
    (problem : Problem) (listed : problem ∈ table.unreachableProblems convention) : problem.part = 3 := by
  obtain ⟨-, -, label, -, -, -, rfl⟩ := (unreachable_problems_iff convention table indexed problem).mp listed
  rfl

theorem problems_ahead (convention : Convention) (table : BlockTable) (indexed : table.Indexed) :
    (table.problems convention).Pairwise table.Ahead := by
  have missing := missing_labels_part convention table indexed
  have shapes := shapes_part convention.exit table
  have dangling := dangling_part table
  have unreachable := unreachable_part convention table indexed
  rw [BlockTable.problems, List.pairwise_append, List.pairwise_append, List.pairwise_append]
  refine ⟨⟨⟨missing_labels_ahead convention table, shapes_ahead convention.exit table indexed, ?_⟩,
    dangling_ahead table indexed, ?_⟩, unreachable_ahead convention table indexed, ?_⟩
  · intro first listed second also
    exact ahead_of_part table first second (by simp [missing first listed, shapes second also])
  · intro first listed second also
    apply ahead_of_part table first second
    rcases List.mem_append.mp listed with listed | listed
    · simp [missing first listed, dangling second also]
    · simp [shapes first listed, dangling second also]
  · intro first listed second also
    apply ahead_of_part table first second
    rcases List.mem_append.mp listed with listed | listed
    · rcases List.mem_append.mp listed with listed | listed
      · simp [missing first listed, unreachable second also]
      · simp [shapes first listed, unreachable second also]
    · simp [dangling first listed, unreachable second also]

theorem count_of_pairwise {α : Type} [DecidableEq α] (related : α → α → Prop) (items : List α)
    (pairwise : items.Pairwise related) (a : α) (apart : ¬ related a a) (member : a ∈ items) :
    items.count a = 1 := by
  induction pairwise with
  | nil => exact absurd member List.not_mem_nil
  | @cons b rest first _ ih =>
      by_cases same : b = a
      · subst same
        have gone : b ∉ rest := fun again => apart (first b again)
        rw [List.count_cons_self, List.count_eq_zero_of_not_mem gone]
      · rw [List.count_cons_of_ne same, ih ((List.mem_cons.mp member).resolve_left (Ne.symm same))]

theorem dangling_count (table : BlockTable) (indexed : table.Indexed) (source target : Label)
    (absent : target ∉ table.labels) :
    (table.danglingTargets.map fun (label, target) => Problem.danglingTarget label target).count
      (.danglingTarget source target) = table.slots source target := by
  have injective : Function.Injective fun (pair : Label × Label) => Problem.danglingTarget pair.1 pair.2 := by
    intro a b same
    obtain ⟨label, target⟩ := Problem.danglingTarget.inj same
    exact Prod.ext label target
  have counted := List.count_map_of_injective table.danglingTargets _ injective (source, target)
  rw [counted, dangling_references table indexed, List.count_filter (by simpa using absent)]
  exact references_count table.blocks source target

theorem problem_count (convention : Convention) (table : BlockTable) (indexed : table.Indexed) (problem : Problem)
    (violation : table.Violation convention problem) :
    (table.problems convention).count problem = table.occurrences problem := by
  by_cases dangles : problem.part = 2
  · have elsewhere : ∀ (problems : List Problem) (part : Nat),
        (∀ other ∈ problems, other.part = part) → part ≠ 2 → problems.count problem = 0 := by
      intro problems part placed apart
      exact List.count_eq_zero_of_not_mem fun member => apart ((placed problem member).symm.trans dangles)
    rw [BlockTable.problems, List.count_append, List.count_append, List.count_append,
      elsewhere _ 0 (missing_labels_part convention table indexed) (by decide),
      elsewhere _ 1 (shapes_part convention.exit table) (by decide),
      elsewhere _ 3 (unreachable_part convention table indexed) (by decide)]
    cases violation with
    | dangling block _ _ _ target _ absent =>
        rw [dangling_count table indexed block.label target absent]
        simp [BlockTable.occurrences]
    | shape block _ _ fault =>
        rw [fault_part convention.exit block problem fault] at dangles
        exact absurd dangles (by decide)
    | missingEntry => exact absurd dangles (by simp [Problem.part])
    | missingExit => exact absurd dangles (by simp [Problem.part])
    | unreachable => exact absurd dangles (by simp [Problem.part])
  · have listed := (problem_iff convention table indexed problem).mpr violation
    have apart : ¬ table.Ahead problem problem := fun tie => dangles (ahead_self table problem tie)
    rw [count_of_pairwise table.Ahead _ (problems_ahead convention table indexed) problem apart listed]
    cases problem with
    | danglingTarget => exact absurd rfl dangles
    | _ => rfl

theorem report_exact (convention : Convention) (body : Body) (built : body.Built) :
    (∀ marker, body.payload = .primitive marker → body.problems convention = [.primitiveBody body.file]) ∧
      ∀ table, body.payload = .blocks table →
        (∀ problem, problem ∈ body.problems convention ↔ table.Violation convention problem) ∧
          (∀ problem, table.Violation convention problem →
            (body.problems convention).count problem = table.occurrences problem) ∧
          (body.problems convention).Pairwise fun first second => table.place first ≤ table.place second := by
  constructor
  · intro marker content
    simp only [Body.problems, content]
  · intro table content
    have indexed := built_indexed table (built table content)
    have report : body.problems convention = table.problems convention := by simp only [Body.problems, content]
    rw [report]
    exact ⟨problem_iff convention table indexed, problem_count convention table indexed,
      (problems_ahead convention table indexed).imp (ahead_le table _ _)⟩

def twiceGone : Instr := ⟨.synthetic, .branch (.var .localVar "x") ⟨"gone"⟩ ⟨"gone"⟩⟩

def onceGone : Instr := ⟨.synthetic, .jump ⟨"gone"⟩⟩

-- A branch that is no end and dangles twice, in front of a jump that dangles as well; a block
-- without instructions that nothing leads to; and no exit.
def brokenBlocks : List Block := [⟨.entry, [twiceGone, onceGone]⟩, ⟨⟨"hollow"⟩, []⟩]

def brokenBody : Body := ⟨"broken.src", .synthetic, ∅, .blocks (.ofList brokenBlocks)⟩

theorem broken_entry_ends : Block.Ends ⟨.entry, [twiceGone, onceGone]⟩ [twiceGone] onceGone [] := by
  refine ⟨rfl, ?_, by simp⟩
  intro isMarker
  cases isMarker

theorem broken_body_reported :
    brokenBody.Built ∧ (brokenBody.problems {}).count (.danglingTarget .entry ⟨"gone"⟩) = 3 ∧
      (brokenBody.problems {}).count (.earlyTerminator .entry 0 .branch) = 1 ∧
      .unreachable .entry .entry ∉ brokenBody.problems {} := by
  have built : brokenBody.Built := of_list_body_built "broken.src" .synthetic ∅ brokenBlocks
  obtain ⟨-, report⟩ := report_exact {} brokenBody built
  obtain ⟨listed, counted, -⟩ := report (.ofList brokenBlocks) rfl
  have blocks := of_list_blocks brokenBlocks (by decide)
  have labels := of_list_labels brokenBlocks (by decide)
  have first : ⟨.entry, [twiceGone, onceGone]⟩ ∈ (BlockTable.ofList brokenBlocks).blocks := by
    rw [blocks]
    exact List.mem_cons_self
  have absent : ⟨"gone"⟩ ∉ (BlockTable.ofList brokenBlocks).labels := by
    rw [labels]
    decide
  have named : twiceGone.op.Names ⟨"gone"⟩ := .onTrue _ _ _
  have early : Block.Fault .exit ⟨.entry, [twiceGone, onceGone]⟩ (.earlyTerminator .entry 0 .branch) :=
    .early _ _ _ broken_entry_ends 0 twiceGone rfl (.branch _ _ _)
  refine ⟨built, ?_, counted _ (.shape _ first _ early), ?_⟩
  · rw [counted _ (.dangling _ first twiceGone List.mem_cons_self _ named absent), BlockTable.occurrences,
      BlockTable.slots, blocks]
    decide
  · rw [listed]
    intro violation
    cases violation with
    | shape block member _ fault => exact absurd (fault_part _ block _ fault) (by decide)
    | unreachable _ _ _ _ _ lost => exact lost .refl

end MidIR
