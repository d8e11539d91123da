import MidIR.Proofs.Graph.Checked
import MidIR.Proofs.Graph.Loop
import MidIR.Proofs.Graph.Reachable

set_option autoImplicit false

namespace MidIR

def Task.position : Task → Nat
  | .enter position => position
  | .leave position => position

namespace Walk

def expands? (walk : Walk) : Option Nat :=
  match walk.stack with
  | .enter position :: _ => if walk.marks.isOpen position then some position else none
  | _ => none

-- Entering a position for the first time costs one mark, and puts at most two tasks on the stack.
def work (walk : Walk) : Nat := 3 * walk.marks.openCount + walk.stack.length

end Walk

def Sweep.loop (next : Nat → List Nat) : Loop Sweep where
  step := Sweep.step next
  step? := Sweep.step? next
  waiting sweep := sweep.pending
  works? sweep := sweep.pending.head?
  emitted sweep := sweep.taken

def Walk.loop (next : Nat → List Nat) : Loop Walk where
  step := Walk.step next
  step? := Walk.step? next
  waiting walk := walk.stack.map Task.position
  works? := Walk.expands?
  emitted walk := walk.finished

theorem clear_count (size : Nat) : (Marks.clear size).openCount = size := List.count_replicate_self

section Search

variable (next : Nat → List Nat) (size first : Nat) (inside : first < size)

theorem sweep_step_taken (sweep : Sweep) : sweep.taken ⊆ (sweep.step next).taken := by
  cases onList : sweep.pending with
  | nil => simp [Sweep.step, onList]
  | cons position rest => simp [Sweep.step, onList, push_all_taken]

theorem sweep_step_takes (sweep : Sweep) (position : Nat) (works : sweep.pending.head? = some position) :
    position ∈ (sweep.step next).taken := by
  obtain ⟨rest, onList⟩ := List.head?_eq_some_iff.mp works
  simp [Sweep.step, onList, push_all_taken]

include inside in
theorem sweep_after_sound (n : Nat) :
    ((Sweep.loop next).after n (Sweep.start size first)).Sound next size first ∧
      ((Sweep.loop next).after n (Sweep.start size first)).Closed next size first ∧
      ((Sweep.loop next).after n (Sweep.start size first)).marks.bits.length = size := by
  obtain ⟨sound, closed⟩ := start_sound next size first inside
  have length : (Sweep.start size first).marks.bits.length = size :=
    (push_length _ first).trans (clear_length size)
  refine after_keeps (Sweep.loop next)
    (fun sweep => sweep.Sound next size first ∧ sweep.Closed next size first ∧ sweep.marks.bits.length = size)
    ?_ n _ ⟨sound, closed, length⟩
  intro sweep ⟨sound, closed, length⟩
  obtain ⟨still, also⟩ := sweep_step_sound next size first sweep sound closed
  exact ⟨still, also, sweep_step_length next size sweep length⟩

-- What is pending was not taken before, so no position is taken twice.
include inside in
theorem sweep_once (m n position : Nat)
    (one : (Sweep.loop next).works? ((Sweep.loop next).after m (Sweep.start size first)) = some position)
    (other : (Sweep.loop next).works? ((Sweep.loop next).after n (Sweep.start size first)) = some position) :
    m = n := by
  refine works_once (Sweep.loop next) Sweep.taken (sweep_step_taken next) (sweep_step_takes next) _ ?_ m n position
    one other
  intro n position works taken
  obtain ⟨rest, onList⟩ := List.head?_eq_some_iff.mp works
  have distinct := (sweep_after_sound next size first inside n).1.distinct
  rw [Sweep.found, onList, List.cons_append, List.nodup_cons] at distinct
  exact distinct.1 (List.mem_append_right rest taken)

theorem sweep_start_work : (Sweep.start size first).work = size := by
  rw [Sweep.start, Sweep.sweep_push_work, Sweep.work, clear_count]
  rfl

theorem sweep_ends (sweep : Sweep) :
    ∃ n ≤ sweep.work, (Sweep.loop next).waiting ((Sweep.loop next).after n sweep) = [] ∧
      (Sweep.loop next).after n sweep = sweep.run next := by
  refine loop_ends (Sweep.loop next) (Sweep.run next) Sweep.work (sweep_run_idle next) (sweep_run_busy next) ?_ sweep
  intro sweep busy
  have counted := Sweep.sweep_step_work next sweep busy
  exact Nat.lt_of_succ_le (Nat.le_of_eq counted)

theorem walk_step_entered (walk : Walk) : walk.entered ⊆ (walk.step next).entered := by
  refine walk_step_cases next walk (fun after => walk.entered ⊆ after.entered) ?_ ?_ ?_ ?_
  · exact fun _ => List.Subset.refl _
  · intro position rest tasks
    exact (entered_leave walk position rest tasks).symm.subset
  · intro position rest tasks _
    rw [entered_drop walk position rest tasks]
    exact List.Subset.refl _
  · intro position rest tasks _
    rw [entered_enter walk position rest _ _ tasks]
    exact List.subset_cons_self position walk.entered

theorem expands_some (walk : Walk) (position : Nat) (works : walk.expands? = some position) :
    (∃ rest, walk.stack = .enter position :: rest) ∧ walk.marks.isOpen position = true := by
  cases tasks : walk.stack with
  | nil => simp [Walk.expands?, tasks] at works
  | cons task rest =>
      cases task with
      | leave other => simp [Walk.expands?, tasks] at works
      | enter other =>
          simp only [Walk.expands?, tasks, Option.ite_none_right_eq_some, Option.some.injEq] at works
          obtain ⟨unmarked, rfl⟩ := works
          exact ⟨⟨rest, rfl⟩, unmarked⟩

theorem walk_step_expands (walk : Walk) (position : Nat) (works : walk.expands? = some position) :
    position ∈ (walk.step next).entered := by
  obtain ⟨⟨rest, tasks⟩, unmarked⟩ := expands_some walk position works
  rw [walk_step_enter next walk position rest tasks unmarked, entered_enter walk position rest _ _ tasks]
  exact List.mem_cons_self

include inside in
theorem walk_after_sound (n : Nat) :
    ((Walk.loop next).after n (Walk.start size first)).Sound next size first ∧
      ((Walk.loop next).after n (Walk.start size first)).marks.bits.length = size := by
  refine after_keeps (Walk.loop next)
    (fun walk => walk.Sound next size first ∧ walk.marks.bits.length = size) ?_ n _
    ⟨walk_start_sound next size first inside, clear_length size⟩
  intro walk ⟨sound, length⟩
  exact ⟨walk_step_sound next size first walk sound, walk_step_length next size walk length⟩

theorem task_inside (walk : Walk) (sound : walk.Sound next size first) (task : Task) (member : task ∈ walk.stack) :
    task.position < size := by
  cases task with
  | enter position => exact (sound.waiting position member).1
  | leave position =>
      have entered : position ∈ walk.entered :=
        List.mem_append_left _ (List.mem_filterMap.mpr ⟨_, member, rfl⟩)
      exact sound.explores.inside position entered

include inside in
theorem walk_once (m n position : Nat)
    (one : (Walk.loop next).works? ((Walk.loop next).after m (Walk.start size first)) = some position)
    (other : (Walk.loop next).works? ((Walk.loop next).after n (Walk.start size first)) = some position) :
    m = n := by
  refine works_once (Walk.loop next) Walk.entered (walk_step_entered next) (walk_step_expands next) _ ?_ m n position
    one other
  intro n position works
  have unmarked := (expands_some _ position works).2
  exact (((walk_after_sound next size first inside n).1.explores.tracks position).mp unmarked).2

theorem walk_step_work (few : ∀ a, (next a).length ≤ 2) (walk : Walk) (busy : walk.stack ≠ []) :
    (walk.step next).work < walk.work := by
  have shorter : ∀ task rest, walk.stack = task :: rest →
      3 * walk.marks.openCount + rest.length < walk.work := by
    intro task rest tasks
    simp [Walk.work, tasks]
  refine walk_step_cases next walk (fun after => after.work < walk.work) (fun idle => absurd idle busy)
    (fun position rest tasks => shorter _ rest tasks) (fun position rest tasks _ => shorter _ rest tasks) ?_
  intro position rest tasks unmarked
  have counted := marks_open_count_mark walk.marks position unmarked
  have found := List.length_filter_le (walk.marks.mark position).isOpen (next position)
  have most := few position
  simp only [Walk.work, tasks, List.length_append, List.length_map, List.length_cons]
  omega

theorem walk_ends (few : ∀ a, (next a).length ≤ 2) (walk : Walk) :
    ∃ n ≤ walk.work, (Walk.loop next).waiting ((Walk.loop next).after n walk) = [] ∧
      (Walk.loop next).after n walk = walk.run next := by
  have idleIff : ∀ walk, (Walk.loop next).waiting walk = [] ↔ walk.stack = [] := fun _ => List.map_eq_nil_iff
  refine loop_ends (Walk.loop next) (Walk.run next) Walk.work ?_ ?_ ?_ walk
  · intro walk idle
    exact Walk.walk_run_idle next walk (not_not.mpr ((idleIff walk).mp idle))
  · intro walk busy
    exact Walk.walk_run_busy next walk (mt (idleIff walk).mpr busy)
  · intro walk busy
    exact walk_step_work next few walk (mt (idleIff walk).mpr busy)

end Search

theorem successor_positions_inside (table : BlockTable) (indexed : table.Indexed) (a b : Nat)
    (member : b ∈ table.successorPositions a) : b < table.size := by
  obtain ⟨_, target, -, -, there⟩ := (successor_positions_iff table indexed a b).mp member
  exact labels_length table ▸ (List.getElem?_eq_some_iff.mp there).1

theorem successor_positions_few (table : BlockTable) (a : Nat) : (table.successorPositions a).length ≤ 2 := by
  rw [BlockTable.successorPositions]
  cases table.blockAt? a with
  | none => exact Nat.zero_le 2
  | some block =>
      exact Nat.le_trans (List.length_filterMap_le table.position? block.successors) (block_successors_few block)

section Table

variable (table : BlockTable) (indexed : table.Indexed) (first : Nat) (inside : first < table.size)

theorem block_inside (position : Nat) (bound : position < table.size) :
    ∃ block, table.blockAt? position = some block :=
  ⟨table.blocks[position], List.getElem?_eq_getElem bound⟩

include indexed inside

theorem sweep_halts :
    table.Halts (Sweep.loop table.successorPositions) table.size (Sweep.start table.size first)
      ((Sweep.start table.size first).run table.successorPositions) := by
  have ahead := successor_positions_inside table indexed
  have going := sweep_after_sound table.successorPositions table.size first inside
  have ends := sweep_ends table.successorPositions (Sweep.start table.size first)
  rw [sweep_start_work] at ends
  refine ⟨?_, ?_, sweep_once _ _ first inside, ?_, ends⟩
  · intro n position pending
    exact (going n).1.inside position (List.mem_append_left _ pending)
  · intro n
    rw [after_succ]
    exact sweep_step_checked _ _ ahead _ (going n).2.2
  · intro n position taken
    exact block_inside table position ((going n).1.inside position (List.mem_append_right _ taken))

theorem walk_halts :
    table.Halts (Walk.loop table.successorPositions) (3 * table.size + 1) (Walk.start table.size first)
      ((Walk.start table.size first).run table.successorPositions) := by
  have ahead := successor_positions_inside table indexed
  have going := walk_after_sound table.successorPositions table.size first inside
  have ends := walk_ends table.successorPositions (successor_positions_few table) (Walk.start table.size first)
  have work : (Walk.start table.size first).work = 3 * table.size + 1 := by
    rw [Walk.work, Walk.start, clear_count]
    rfl
  rw [work] at ends
  refine ⟨?_, ?_, walk_once _ _ first inside, ?_, ends⟩
  · intro n position waiting
    obtain ⟨task, member, rfl⟩ := List.mem_map.mp waiting
    exact task_inside _ _ first _ (going n).1 task member
  · intro n
    rw [after_succ]
    exact walk_step_checked _ _ ahead _ (fun position waits => ((going n).1.waiting position waits).1) (going n).2
  · intro n position finished
    exact block_inside table position ((going n).1.explores.inside position (List.mem_append_right _ finished))

end Table

theorem searches_halt (table : BlockTable) (built : table.Built) (start : Label) :
    (start ∉ table.labels → table.reachableFrom start = ∅ ∧ table.postorder start = []) ∧
      (start ∈ table.labels → ∃ first sweep walk, table.position? start = some first ∧
        Sweep.start? table.size first = some (Sweep.start table.size first) ∧
        table.Halts (Sweep.loop table.successorPositions) table.size (Sweep.start table.size first) sweep ∧
        table.reachableFrom start = Std.ExtHashSet.ofList
          (sweep.taken.filterMap fun taken => (table.blockAt? taken).map Block.label) ∧
        table.Halts (Walk.loop table.successorPositions) (3 * table.size + 1) (Walk.start table.size first) walk ∧
        table.postorder start =
          walk.finished.reverse.filterMap fun left => (table.blockAt? left).map Block.label) := by
  have indexed := built_indexed table built
  refine ⟨fun absent => ⟨reachable_from_absent table indexed start absent,
    postorder_absent table indexed start absent⟩, ?_⟩
  intro present
  obtain ⟨first, here⟩ := List.mem_iff_getElem?.mp present
  have found := (indexed start first).mpr here
  have inside := indexed_position_bound table indexed start first found
  have marked : first < (Marks.clear table.size).bits.length := (clear_length table.size).symm ▸ inside
  have reached : table.reachableFrom start = Std.ExtHashSet.ofList
      (((Sweep.start table.size first).run table.successorPositions).taken.filterMap
        fun taken => (table.blockAt? taken).map Block.label) := by
    simp only [BlockTable.reachableFrom, found]
  have left : table.postorder start =
      ((Walk.start table.size first).run table.successorPositions).finished.reverse.filterMap
        fun left => (table.blockAt? left).map Block.label := by
    simp only [BlockTable.postorder, found]
  exact ⟨first, _, _, found, push_inside _ first marked, sweep_halts table indexed first inside, reached,
    walk_halts table indexed first inside, left⟩

theorem stuck_table_halts :
    let table := BlockTable.ofList stuckBlocks
    let sweep := Sweep.loop table.successorPositions
    let walk := Walk.loop table.successorPositions
    table.Built ∧ .entry ∈ table.labels ∧ ⟨"ghost"⟩ ∉ table.labels ∧
      (∃ n ≤ 3, (sweep.after n (Sweep.start 3 0)).pending = []) ∧
      (∃ n ≤ 10, (walk.after n (Walk.start 3 0)).stack = []) ∧
      table.postorder ⟨"ghost"⟩ = [] := by
  intro table sweep walk
  have built : table.Built := .ofList stuckBlocks
  have labels : table.labels = [.entry, ⟨"loop"⟩, ⟨"island"⟩] := of_list_labels stuckBlocks (by decide)
  have size : table.size = 3 := (labels_length table).symm.trans (congrArg List.length labels)
  have present : .entry ∈ table.labels := labels ▸ by decide
  have absent : ⟨"ghost"⟩ ∉ table.labels := labels ▸ by decide
  obtain ⟨first, _, _, found, -, swept, -, walked, -⟩ := (searches_halt table built .entry).2 present
  have zero : 0 = first := by
    have front : table.position? .entry = some 0 := (built_indexed table built .entry 0).mpr (by simp [labels])
    exact Option.some.inj (front.symm.trans found)
  rw [size, ← zero] at swept walked
  obtain ⟨m, few, done, -⟩ := swept.ends
  obtain ⟨n, bound, idle, -⟩ := walked.ends
  exact ⟨built, present, absent, ⟨m, few, done⟩, ⟨n, bound, List.map_eq_nil_iff.mp idle⟩,
    ((searches_halt table built ⟨"ghost"⟩).1 absent).2⟩

end MidIR
