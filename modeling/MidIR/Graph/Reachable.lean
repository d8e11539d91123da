import Std.Data.ExtHashSet
import MidIR.Graph.Edges
import MidIR.Graph.Marks

set_option autoImplicit false

namespace MidIR

-- In both lists the latest comes first.
structure Sweep where
  marks : Marks
  pending : List Nat
  taken : List Nat

namespace Sweep

def push (sweep : Sweep) (position : Nat) : Sweep :=
  if sweep.marks.isOpen position then
    { sweep with marks := sweep.marks.mark position, pending := position :: sweep.pending }
  else
    sweep

def start (size position : Nat) : Sweep := Sweep.push ⟨Marks.clear size, [], []⟩ position

def step (next : Nat → List Nat) (sweep : Sweep) : Sweep :=
  match sweep.pending with
  | [] => sweep
  | position :: rest =>
      -- The mark was set when the position was found, so a loop does not lead back to it.
      (next position).foldl push { sweep with pending := rest, taken := position :: sweep.taken }

def work (sweep : Sweep) : Nat := sweep.marks.openCount + sweep.pending.length

theorem sweep_push_work (sweep : Sweep) (position : Nat) : (sweep.push position).work = sweep.work := by
  by_cases unmarked : sweep.marks.isOpen position
  · have counted := marks_open_count_mark sweep.marks position unmarked
    simp only [push, unmarked, if_true, work, List.length_cons]
    omega
  · simp [push, unmarked]

theorem sweep_push_all_work (positions : List Nat) (sweep : Sweep) :
    (positions.foldl push sweep).work = sweep.work := by
  induction positions generalizing sweep with
  | nil => rfl
  | cons position rest ih => rw [List.foldl_cons, ih, sweep_push_work]

theorem sweep_step_work (next : Nat → List Nat) (sweep : Sweep) (busy : sweep.pending ≠ []) :
    (sweep.step next).work + 1 = sweep.work := by
  cases onList : sweep.pending with
  | nil => exact absurd onList busy
  | cons position rest =>
      simp only [step, onList, sweep_push_all_work]
      simp only [work, onList, List.length_cons]
      omega

def run (next : Nat → List Nat) (sweep : Sweep) : Sweep :=
  if _busy : sweep.pending ≠ [] then
    run next (sweep.step next)
  else
    sweep
termination_by sweep.work
decreasing_by
  have smaller := sweep_step_work next sweep _busy
  omega

end Sweep

namespace BlockTable

def reachableFrom (table : BlockTable) (start : Label) : Std.ExtHashSet Label :=
  match table.position? start with
  | none => ∅
  | some position =>
      let sweep := (Sweep.start table.size position).run table.successorPositions
      Std.ExtHashSet.ofList (sweep.taken.filterMap fun taken => (table.blockAt? taken).map Block.label)

def unreachable (table : BlockTable) (entry : Label) : List Label :=
  let reached := table.reachableFrom entry
  table.labels.filter fun label => !reached.contains label

def prune (entry : Label) (table : BlockTable) : BlockTable :=
  (table.unreachable entry).foldl (fun left label => (left.remove label).2) table

end BlockTable

end MidIR
