import MidIR.Graph.Edges
import MidIR.Graph.Marks

set_option autoImplicit false

namespace MidIR

inductive Task where
  | enter (position : Nat)
  | leave (position : Nat)
deriving DecidableEq

structure Walk where
  marks : Marks
  stack : List Task
  -- In the order in which the search leaves them, the latest first.
  finished : List Nat

namespace Walk

def start (size position : Nat) : Walk := ⟨Marks.clear size, [.enter position], []⟩

-- Entering a position for the first time puts the positions next to it on the stack, the first on
-- top, above the task of leaving it.
def step (next : Nat → List Nat) (walk : Walk) : Walk :=
  match walk.stack with
  | [] => walk
  | .leave position :: rest =>
      { walk with stack := rest, finished := position :: walk.finished }
  | .enter position :: rest =>
      if walk.marks.isOpen position then
        let marks := walk.marks.mark position
        -- What is marked by now needs no task. What gets its mark later keeps the task it has here.
        let found := (next position).filter marks.isOpen
        { walk with marks, stack := found.map .enter ++ .leave position :: rest }
      else
        { walk with stack := rest }

theorem walk_step_smaller (next : Nat → List Nat) (walk : Walk) (busy : walk.stack ≠ []) :
    (walk.step next).marks.openCount < walk.marks.openCount ∨
      (walk.step next).marks = walk.marks ∧ (walk.step next).stack.length < walk.stack.length := by
  cases tasks : walk.stack with
  | nil => exact absurd tasks busy
  | cons task rest =>
      cases task with
      | leave position => exact Or.inr (by simp [step, tasks])
      | enter position =>
          by_cases unmarked : walk.marks.isOpen position
          · have counted := marks_open_count_mark walk.marks position unmarked
            refine Or.inl ?_
            simp only [step, tasks, unmarked, if_true]
            omega
          · exact Or.inr (by simp [step, tasks, unmarked])

def run (next : Nat → List Nat) (walk : Walk) : Walk :=
  if _busy : walk.stack ≠ [] then
    run next (walk.step next)
  else
    walk
termination_by (walk.marks.openCount, walk.stack.length)
decreasing_by
  rcases walk_step_smaller next walk _busy with fewer | ⟨same, shorter⟩
  · exact Prod.Lex.left _ _ fewer
  · rw [same]
    exact Prod.Lex.right _ shorter

theorem walk_run_busy (next : Nat → List Nat) (walk : Walk) (busy : walk.stack ≠ []) :
    walk.run next = (walk.step next).run next := by
  rw [run, dif_pos busy]

theorem walk_run_idle (next : Nat → List Nat) (walk : Walk) (idle : ¬ walk.stack ≠ []) :
    walk.run next = walk := by
  rw [run, dif_neg idle]

end Walk

def BlockTable.postorder (table : BlockTable) (entry : Label) : List Label :=
  match table.position? entry with
  | none => []
  | some position =>
      let walk := (Walk.start table.size position).run table.successorPositions
      walk.finished.reverse.filterMap fun left => (table.blockAt? left).map Block.label

end MidIR
