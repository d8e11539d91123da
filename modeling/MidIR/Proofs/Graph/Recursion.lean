import MidIR.Proofs.Graph.DepthFirst
import MidIR.Proofs.Table.Plain

set_option autoImplicit false

namespace MidIR

-- The stack has no part in it: the search keeps what it has in front of it in its calls.
structure BlockTable.Follows (table : BlockTable) (marks : Marks) (finished : List Nat) (search : Search) :
    Prop where
  marks : ∀ label position, table.position? label = some position →
    (marks.isOpen position = true ↔ label ∉ search.entered)
  finished : (finished.reverse.filterMap fun left => (table.blockAt? left).map Block.label) = search.finished

-- Tasks that stand for the labels still to be searched. A label that would be passed over may have
-- no task: it was left out when the others got theirs.
inductive BlockTable.Waiting (table : BlockTable) (search : Search) : List Label → List Task → Prop where
  | nil : Waiting table search [] []
  | passed (label : Label) (rest : List Label) (tasks : List Task) (seen : label ∉ table.unseen search)
      (later : Waiting table search rest tasks) : Waiting table search (label :: rest) tasks
  | task (label : Label) (position : Nat) (rest : List Label) (tasks : List Task)
      (here : table.position? label = some position) (later : Waiting table search rest tasks) :
      Waiting table search (label :: rest) (.enter position :: tasks)

theorem waiting_later (table : BlockTable) (search after : Search) (grown : search.entered ⊆ after.entered)
    (names : List Label) (tasks : List Task) (waiting : table.Waiting search names tasks) :
    table.Waiting after names tasks := by
  induction waiting with
  | nil => exact .nil
  | passed label rest tasks seen _ ih =>
      have still : label ∉ table.unseen after := by
        rw [unseen_iff] at seen ⊢
        exact fun fresh => seen ⟨fresh.1, fun member => fresh.2 (grown member)⟩
      exact .passed label rest tasks still ih
  | task label position rest tasks here _ ih => exact .task label position rest tasks here ih

theorem absent_seen (table : BlockTable) (indexed : table.Indexed) (search : Search) (label : Label)
    (missing : table.position? label = none) : label ∉ table.unseen search := by
  rw [unseen_iff]
  exact fun fresh => (indexed_position_none_iff table indexed label).mp missing fresh.1

theorem successor_positions_named (table : BlockTable) (label : Label) (position : Nat)
    (here : table.position? label = some position) :
    table.successorPositions position = (table.successors label).filterMap table.position? := by
  rw [BlockTable.successors, BlockTable.get?, here, Option.bind_some, BlockTable.successorPositions]
  cases table.blockAt? position <;> rfl

-- Working off the tasks of some labels is searching from them.
def BlockTable.Performs (table : BlockTable) (names : List Label) (search after : Search) : Prop :=
  ∀ (walk : Walk) (tasks rest : List Task), table.Follows walk.marks walk.finished search →
    table.Waiting search names tasks → walk.stack = tasks ++ rest →
      ∃ later : Walk, walk.run table.successorPositions = later.run table.successorPositions ∧
        later.stack = rest ∧ table.Follows later.marks later.finished after

theorem performs_nothing (table : BlockTable) (search : Search) : table.Performs [] search search := by
  intro walk tasks rest follows waiting onStack
  cases waiting
  exact ⟨walk, rfl, onStack, follows⟩

section Indexed

variable (table : BlockTable) (indexed : table.Indexed)

include indexed

theorem follows_start : table.Follows (Marks.clear table.size) [] .start := by
  refine ⟨?_, rfl⟩
  intro label place there
  have inside := indexed_position_bound table indexed label place there
  simp [Search.start, marks_open_clear, inside]

theorem follows_enter (marks : Marks) (finished : List Nat) (search : Search)
    (follows : table.Follows marks finished search) (label : Label) (position : Nat)
    (here : table.position? label = some position) :
    table.Follows (marks.mark position) finished (search.enter label) := by
  refine ⟨?_, follows.finished⟩
  intro other place there
  have different : position ≠ place ↔ other ≠ label := by
    constructor
    · rintro unlike rfl
      exact unlike (Option.some.inj (here.symm.trans there))
    · rintro unlike rfl
      have labelled := (indexed label position).mp here
      exact unlike (Option.some.inj (((indexed other position).mp there).symm.trans labelled))
  simp only [marks_open_mark, Bool.and_eq_true, decide_eq_true_iff, follows.marks other place there, Search.enter,
    List.mem_cons, not_or, different]

theorem follows_leave (marks : Marks) (finished : List Nat) (search : Search)
    (follows : table.Follows marks finished search) (label : Label) (position : Nat)
    (here : table.position? label = some position) :
    table.Follows marks (position :: finished) (search.leave label) := by
  refine ⟨follows.marks, ?_⟩
  have shown : (table.blockAt? position).map Block.label = some label :=
    (label_at table position).trans ((indexed label position).mp here)
  rw [List.reverse_cons, List.filterMap_append, follows.finished]
  simp [shown, Search.leave]

theorem open_unseen (marks : Marks) (finished : List Nat) (search : Search)
    (follows : table.Follows marks finished search) (label : Label) (position : Nat)
    (here : table.position? label = some position) :
    marks.isOpen position = true ↔ label ∈ table.unseen search := by
  have present := List.mem_of_getElem? ((indexed label position).mp here)
  rw [follows.marks label position here, unseen_iff]
  exact (and_iff_right present).symm

theorem waiting_found (marks : Marks) (finished : List Nat) (search : Search)
    (follows : table.Follows marks finished search) (names : List Label) :
    table.Waiting search names (((names.filterMap table.position?).filter marks.isOpen).map .enter) := by
  induction names with
  | nil => exact .nil
  | cons label rest ih =>
      cases here : table.position? label with
      | none =>
          rw [List.filterMap_cons_none here]
          exact .passed label rest _ (absent_seen table indexed search label here) ih
      | some position =>
          have unseen := open_unseen table indexed marks finished search follows label position here
          rw [List.filterMap_cons_some here]
          by_cases unmarked : marks.isOpen position = true
          · rw [List.filter_cons_of_pos unmarked]
            exact .task label position rest _ here ih
          · rw [List.filter_cons_of_neg unmarked]
            exact .passed label rest _ (fun fresh => unmarked (unseen.mpr fresh)) ih

theorem performs_seen (label : Label) (others : List Label) (search after : Search)
    (seen : label ∉ table.unseen search) (onward : table.Performs others search after) :
    table.Performs (label :: others) search after := by
  intro walk tasks rest follows waiting onStack
  cases waiting with
  | passed _ _ _ _ later => exact onward walk tasks rest follows later onStack
  | task _ position _ tasks here later =>
      have marked : ¬ walk.marks.isOpen position = true := by
        rwa [open_unseen table indexed _ _ search follows label position here]
      rw [Walk.walk_run_busy _ walk (by simp [onStack]),
        walk_step_drop _ walk position (tasks ++ rest) onStack marked]
      exact onward _ tasks rest follows later rfl

theorem performs_fresh (label : Label) (others : List Label) (search inner after : Search)
    (fresh : label ∈ table.unseen search) (grown : (search.enter label).entered ⊆ inner.entered)
    (inward : table.Performs (table.successors label) (search.enter label) inner)
    (onward : table.Performs others (inner.leave label) after) :
    table.Performs (label :: others) search after := by
  intro walk tasks rest follows waiting onStack
  cases waiting with
  | passed _ _ _ seen _ => exact absurd fresh seen
  | task _ position _ tasks here later =>
      have unmarked := (open_unseen table indexed _ _ search follows label position here).mpr fresh
      have entering := follows_enter table indexed _ _ search follows label position here
      have found := waiting_found table indexed _ _ _ entering (table.successors label)
      rw [Walk.walk_run_busy _ walk (by simp [onStack]),
        walk_step_enter _ walk position (tasks ++ rest) onStack unmarked,
        successor_positions_named table label position here]
      -- Below the tasks of what the block leads to waits the task of leaving it.
      obtain ⟨middle, reached, left, inside⟩ :=
        inward ⟨walk.marks.mark position, _, walk.finished⟩ _ (.leave position :: (tasks ++ rest)) entering found rfl
      have leaving := follows_leave table indexed _ _ inner inside label position here
      rw [reached, Walk.walk_run_busy _ middle (by simp [left]),
        walk_step_leave _ middle position (tasks ++ rest) left]
      -- What waits below got its tasks earlier, and fewer labels are unseen by now.
      have still := waiting_later table search (inner.leave label)
        (List.Subset.trans (List.subset_cons_self label search.entered) grown) others tasks later
      exact onward ⟨_, _, _⟩ tasks rest leaving still rfl

theorem explore_performs (names : List Label) (search : Search) :
    table.Performs names search (table.explore names search).1 :=
  explore_induction table table.Performs (performs_nothing table) (performs_seen table indexed)
    (performs_fresh table indexed) names search

theorem postorder_depth_first (entry : Label) : table.postorder entry = table.depthFirst entry := by
  cases here : table.position? entry with
  | none =>
      have absent := (indexed_position_none_iff table indexed entry).mp here
      rw [postorder_absent table indexed entry absent, BlockTable.depthFirst,
        explore_seen table entry [] _ (absent_seen table indexed _ entry here), explore_nil]
      rfl
  | some position =>
      have waiting : table.Waiting .start [entry] [.enter position] :=
        .task entry position [] [] here .nil
      obtain ⟨last, reached, done, follows⟩ :=
        explore_performs table indexed [entry] .start (Walk.start table.size position) _ []
          (follows_start table indexed) waiting rfl
      rw [Walk.walk_run_idle _ last (by simp [done])] at reached
      simp only [BlockTable.postorder, here, reached]
      exact follows.finished

end Indexed

theorem postorder_is_recursion (table : BlockTable) (built : table.Built) (entry : Label) :
    table.postorder entry = table.depthFirst entry :=
  postorder_depth_first table (built_indexed table built) entry

theorem of_list_successors (blocks : List Block) (distinct : (blocks.map Block.label).Nodup) (label : Label) :
    (BlockTable.ofList blocks).successors label = ((findBlock? label blocks).map Block.successors).getD [] := by
  have indexed := of_list_indexed blocks
  rw [BlockTable.successors, get_find_block _ indexed, of_list_blocks blocks distinct]
  cases findBlock? label blocks <;> rfl

def crossingBlocks : List Block :=
  [⟨⟨"top"⟩, [⟨.synthetic, .branch (.var .localVar "x") ⟨"near"⟩ ⟨"far"⟩⟩]⟩,
    ⟨⟨"near"⟩, [⟨.synthetic, .jump ⟨"far"⟩⟩]⟩,
    ⟨⟨"far"⟩, [⟨.synthetic, .branchNone (.var .localVar "x") ⟨"ghost"⟩ ⟨"near"⟩⟩]⟩]

theorem crossing_table_depth_first :
    (BlockTable.ofList crossingBlocks).Built ∧
      (BlockTable.ofList crossingBlocks).postorder ⟨"top"⟩ = [⟨"far"⟩, ⟨"near"⟩, ⟨"top"⟩] := by
  have built : (BlockTable.ofList crossingBlocks).Built := .ofList crossingBlocks
  have labels : (BlockTable.ofList crossingBlocks).labels = [⟨"top"⟩, ⟨"near"⟩, ⟨"far"⟩] :=
    of_list_labels crossingBlocks (by decide)
  have leads := of_list_successors crossingBlocks (by decide)
  have top : (BlockTable.ofList crossingBlocks).successors ⟨"top"⟩ = [⟨"near"⟩, ⟨"far"⟩] := (leads _).trans rfl
  have near : (BlockTable.ofList crossingBlocks).successors ⟨"near"⟩ = [⟨"far"⟩] := (leads _).trans rfl
  have far : (BlockTable.ofList crossingBlocks).successors ⟨"far"⟩ = [⟨"ghost"⟩, ⟨"near"⟩] := (leads _).trans rfl
  refine ⟨built, ?_⟩
  rw [postorder_is_recursion _ built, BlockTable.depthFirst]
  simp [explore_fresh, explore_seen, explore_nil, unseen_iff, labels, top, near, far, Search.start, Search.enter,
    Search.leave]

end MidIR
