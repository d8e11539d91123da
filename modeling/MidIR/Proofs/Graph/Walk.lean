import MidIR.Graph.Postorder
import MidIR.Proofs.Graph.Hop

set_option autoImplicit false

namespace MidIR

def Task.leaving? : Task → Option Nat
  | .enter _ => none
  | .leave position => some position

theorem walk_step_leave (next : Nat → List Nat) (walk : Walk) (position : Nat) (rest : List Task)
    (tasks : walk.stack = .leave position :: rest) :
    walk.step next = { walk with stack := rest, finished := position :: walk.finished } := by
  simp only [Walk.step, tasks]

theorem walk_step_drop (next : Nat → List Nat) (walk : Walk) (position : Nat) (rest : List Task)
    (tasks : walk.stack = .enter position :: rest) (marked : ¬ walk.marks.isOpen position = true) :
    walk.step next = { walk with stack := rest } := by
  simp [Walk.step, tasks, marked]

theorem walk_step_enter (next : Nat → List Nat) (walk : Walk) (position : Nat) (rest : List Task)
    (tasks : walk.stack = .enter position :: rest) (unmarked : walk.marks.isOpen position = true) :
    walk.step next = { walk with
      marks := walk.marks.mark position,
      stack := ((next position).filter (walk.marks.mark position).isOpen).map .enter ++ .leave position :: rest } := by
  simp only [Walk.step, tasks, unmarked, if_true]

theorem walk_step_cases (next : Nat → List Nat) (walk : Walk) (holds : Walk → Prop)
    (idle : walk.stack = [] → holds walk)
    (leave : ∀ position rest, walk.stack = .leave position :: rest →
      holds { walk with stack := rest, finished := position :: walk.finished })
    (drop : ∀ position rest, walk.stack = .enter position :: rest → ¬ walk.marks.isOpen position = true →
      holds { walk with stack := rest })
    (enter : ∀ position rest, walk.stack = .enter position :: rest → walk.marks.isOpen position = true →
      holds { walk with
        marks := walk.marks.mark position,
        stack := ((next position).filter (walk.marks.mark position).isOpen).map .enter ++ .leave position :: rest }) :
    holds (walk.step next) := by
  cases tasks : walk.stack with
  | nil =>
      simp only [Walk.step, tasks]
      exact idle tasks
  | cons task rest =>
      cases task with
      | leave position =>
          rw [walk_step_leave next walk position rest tasks]
          exact leave position rest tasks
      | enter position =>
          by_cases unmarked : walk.marks.isOpen position = true
          · rw [walk_step_enter next walk position rest tasks unmarked]
            exact enter position rest tasks unmarked
          · rw [walk_step_drop next walk position rest tasks unmarked]
            exact drop position rest tasks unmarked

namespace Walk

-- The positions entered: some are still to be left.
def entered (walk : Walk) : List Nat := walk.stack.filterMap Task.leaving? ++ walk.finished

-- A position next to one that was entered has been entered too, or waits for it. So a task that
-- finds its position entered can be dropped, and nothing is lost.
structure Sound (next : Nat → List Nat) (size first : Nat) (walk : Walk) : Prop where
  explores : walk.marks.Explores next size first walk.entered
  waiting : ∀ position, .enter position ∈ walk.stack → position < size ∧ Reaches next size first position
  first : first ∈ walk.entered ∨ .enter first ∈ walk.stack
  hops : ∀ a ∈ walk.entered, ∀ b, Hop next size a b → b ∈ walk.entered ∨ .enter b ∈ walk.stack

end Walk

theorem walk_start_sound (next : Nat → List Nat) (size first : Nat) (inside : first < size) :
    (Walk.start size first).Sound next size first := by
  have nothing : (Walk.start size first).entered = [] := rfl
  refine ⟨explores_clear next size first, ?_, ?_, ?_⟩
  · intro position waits
    have same : position = first := by simpa [Walk.start] using waits
    rw [same]
    exact ⟨inside, .refl⟩
  · simp [Walk.start]
  · simp [nothing]

theorem entered_leave (walk : Walk) (position : Nat) (rest : List Task)
    (tasks : walk.stack = .leave position :: rest) :
    (Walk.entered { walk with stack := rest, finished := position :: walk.finished }).Perm walk.entered := by
  simp only [Walk.entered, tasks, List.filterMap_cons, Task.leaving?, List.cons_append]
  exact List.perm_middle

theorem entered_drop (walk : Walk) (position : Nat) (rest : List Task)
    (tasks : walk.stack = .enter position :: rest) : Walk.entered { walk with stack := rest } = walk.entered := by
  rw [Walk.entered, Walk.entered, tasks]
  rfl

theorem entered_enter (walk : Walk) (position : Nat) (rest : List Task) (marks : Marks) (found : List Nat)
    (tasks : walk.stack = .enter position :: rest) :
    Walk.entered { walk with marks, stack := found.map .enter ++ .leave position :: rest } =
      position :: walk.entered := by
  have none : (found.map Task.enter).filterMap Task.leaving? = [] := by simp [Task.leaving?]
  rw [Walk.entered, Walk.entered, tasks, List.filterMap_append, none]
  rfl

theorem walk_leave_sound (next : Nat → List Nat) (size first : Nat) (walk : Walk) (position : Nat)
    (rest : List Task) (tasks : walk.stack = .leave position :: rest) (sound : walk.Sound next size first) :
    Walk.Sound next size first { walk with stack := rest, finished := position :: walk.finished } := by
  have moved := entered_leave walk position rest tasks
  have waits : ∀ other, .enter other ∈ walk.stack ↔ .enter other ∈ rest := by simp [tasks]
  refine ⟨explores_perm next size first walk.marks _ _ sound.explores moved, ?_, ?_, ?_⟩
  · intro other member
    exact sound.waiting other ((waits other).mpr member)
  · rw [moved.mem_iff, ← waits]
    exact sound.first
  · intro a member b hop
    rw [moved.mem_iff, ← waits]
    exact sound.hops a (moved.mem_iff.mp member) b hop

theorem walk_drop_sound (next : Nat → List Nat) (size first : Nat) (walk : Walk) (position : Nat)
    (rest : List Task) (tasks : walk.stack = .enter position :: rest) (sound : walk.Sound next size first)
    (marked : ¬ walk.marks.isOpen position = true) :
    Walk.Sound next size first { walk with stack := rest } := by
  have same := entered_drop walk position rest tasks
  have inside := (sound.waiting position (by simp [tasks])).1
  have here := explores_marked next size first walk.marks walk.entered position sound.explores marked inside
  have waits : ∀ other, other ∈ walk.entered ∨ .enter other ∈ walk.stack →
      other ∈ walk.entered ∨ .enter other ∈ rest := by
    intro other before
    rw [tasks, List.mem_cons] at before
    rcases before with member | equal | later
    · exact Or.inl member
    · exact Or.inl (Task.enter.inj equal ▸ here)
    · exact Or.inr later
  refine ⟨same ▸ sound.explores, ?_, ?_, ?_⟩
  · intro other member
    exact sound.waiting other (by simp [tasks, member])
  · exact same ▸ waits first sound.first
  · intro a member b hop
    exact same ▸ waits b (sound.hops a (same ▸ member) b hop)

theorem walk_enter_sound (next : Nat → List Nat) (size first : Nat) (walk : Walk) (position : Nat)
    (rest : List Task) (tasks : walk.stack = .enter position :: rest) (sound : walk.Sound next size first)
    (unmarked : walk.marks.isOpen position = true) (found : List Nat)
    (filtered : found = (next position).filter (walk.marks.mark position).isOpen) :
    Walk.Sound next size first
      { walk with marks := walk.marks.mark position, stack := found.map .enter ++ .leave position :: rest } := by
  have here := (sound.waiting position (by simp [tasks])).2
  have explores := explores_mark next size first walk.marks walk.entered position sound.explores unmarked here
  have grown := entered_enter walk position rest (walk.marks.mark position) found tasks
  have waits : ∀ other, .enter other ∈ found.map Task.enter ++ .leave position :: rest ↔
      other ∈ found ∨ .enter other ∈ rest := by simp
  have kept : ∀ other, other ∈ walk.entered ∨ .enter other ∈ walk.stack →
      other ∈ position :: walk.entered ∨ .enter other ∈ found.map Task.enter ++ .leave position :: rest := by
    intro other before
    rw [waits, List.mem_cons]
    rw [tasks, List.mem_cons] at before
    rcases before with member | equal | later
    · exact Or.inl (Or.inr member)
    · exact Or.inl (Or.inl (Task.enter.inj equal))
    · exact Or.inr (Or.inr later)
  refine ⟨grown ▸ explores, ?_, grown ▸ kept first sound.first, ?_⟩
  · intro other member
    rcases (waits other).mp member with ahead | later
    · rw [filtered, List.mem_filter] at ahead
      have bound := ((explores.tracks other).mp ahead.2).1
      exact ⟨bound, here.tail ⟨ahead.1, bound⟩⟩
    · exact sound.waiting other (by simp [tasks, later])
  · rw [grown]
    intro a member b hop
    rcases List.mem_cons.mp member with rfl | earlier
    -- A position next to this one gets its task now, unless it has been entered.
    · by_cases ahead : (walk.marks.mark a).isOpen b = true
      · have waiting : b ∈ found := by
          rw [filtered]
          exact List.mem_filter.mpr ⟨hop.1, ahead⟩
        exact Or.inr ((waits b).mpr (Or.inl waiting))
      · exact Or.inl (explores_marked next size first _ _ b explores ahead hop.2)
    · exact kept b (sound.hops a earlier b hop)

theorem walk_step_sound (next : Nat → List Nat) (size first : Nat) (walk : Walk)
    (sound : walk.Sound next size first) : (walk.step next).Sound next size first := by
  refine walk_step_cases next walk (fun after => after.Sound next size first) (fun _ => sound) ?_ ?_ ?_
  · intro position rest tasks
    exact walk_leave_sound next size first walk position rest tasks sound
  · intro position rest tasks marked
    exact walk_drop_sound next size first walk position rest tasks sound marked
  · intro position rest tasks unmarked
    exact walk_enter_sound next size first walk position rest tasks sound unmarked _ rfl

theorem walk_run_sound (next : Nat → List Nat) (size first : Nat) (walk : Walk)
    (sound : walk.Sound next size first) :
    (walk.run next).Sound next size first ∧ (walk.run next).stack = [] := by
  fun_induction Walk.run next walk with
  | case1 walk busy ih => exact ih (walk_step_sound next size first walk sound)
  | case2 walk idle => exact ⟨sound, Classical.not_not.mp idle⟩

theorem walk_finished (next : Nat → List Nat) (size first : Nat) (inside : first < size) :
    ((Walk.start size first).run next).finished.Nodup ∧
      ∀ position, position ∈ ((Walk.start size first).run next).finished ↔ Reaches next size first position := by
  obtain ⟨sound, done⟩ := walk_run_sound next size first _ (walk_start_sound next size first inside)
  have all : ((Walk.start size first).run next).entered = ((Walk.start size first).run next).finished := by
    rw [Walk.entered, done]
    rfl
  have nothing : ∀ task, task ∉ ((Walk.start size first).run next).stack := by simp [done]
  have begun := sound.first.resolve_right (nothing _)
  have closed : ∀ a ∈ ((Walk.start size first).run next).entered, ∀ b, Hop next size a b →
      b ∈ ((Walk.start size first).run next).entered := by
    intro a member b hop
    exact (sound.hops a member b hop).resolve_right (nothing _)
  rw [← all]
  refine ⟨sound.explores.distinct, fun position => ⟨sound.explores.reached position, ?_⟩⟩
  exact reaches_closed next size first position _ begun closed

end MidIR
