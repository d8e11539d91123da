import MidIR.Proofs.Graph.Sweep
import MidIR.Proofs.Graph.Walk

set_option autoImplicit false

namespace MidIR

-- Fails outside the table, where `isOpen` answers that there is nothing to enter.
def Marks.look? (marks : Marks) (position : Nat) : Option Bool := marks.bits[position]?

def Marks.unmarked? (marks : Marks) : List Nat → Option (List Nat)
  | [] => some []
  | position :: rest => do
      let marked ← marks.look? position
      let others ← marks.unmarked? rest
      return if marked then others else position :: others

namespace Sweep

def push? (sweep : Sweep) (position : Nat) : Option Sweep := do
  let marked ← sweep.marks.look? position
  if marked then
    return sweep
  else
    return { sweep with marks := sweep.marks.mark position, pending := position :: sweep.pending }

def start? (size position : Nat) : Option Sweep := push? ⟨Marks.clear size, [], []⟩ position

def step? (next : Nat → List Nat) (sweep : Sweep) : Option Sweep :=
  match sweep.pending with
  | [] => some sweep
  | position :: rest =>
      (next position).foldlM push? { sweep with pending := rest, taken := position :: sweep.taken }

end Sweep

def Walk.step? (next : Nat → List Nat) (walk : Walk) : Option Walk :=
  match walk.stack with
  | [] => some walk
  | .leave position :: rest =>
      some { walk with stack := rest, finished := position :: walk.finished }
  | .enter position :: rest => do
      let marked ← walk.marks.look? position
      if marked then
        return { walk with stack := rest }
      else
        let marks := walk.marks.mark position
        let found ← marks.unmarked? (next position)
        return { walk with marks, stack := found.map .enter ++ .leave position :: rest }

theorem look_inside (marks : Marks) (position : Nat) (inside : position < marks.bits.length) :
    marks.look? position = some (!marks.isOpen position) := by
  rw [Marks.look?, Marks.isOpen, List.getElem?_eq_getElem inside]
  cases marks.bits[position] <;> rfl

theorem mark_length (marks : Marks) (position : Nat) : (marks.mark position).bits.length = marks.bits.length :=
  List.length_set

theorem clear_length (size : Nat) : (Marks.clear size).bits.length = size := List.length_replicate

theorem unmarked_inside (marks : Marks) (positions : List Nat)
    (inside : ∀ position ∈ positions, position < marks.bits.length) :
    marks.unmarked? positions = some (positions.filter marks.isOpen) := by
  induction positions with
  | nil => rfl
  | cons position rest ih =>
      have here := look_inside marks position (inside position List.mem_cons_self)
      have others := ih fun other member => inside other (List.mem_cons_of_mem position member)
      by_cases unmarked : marks.isOpen position <;> simp [Marks.unmarked?, here, others, unmarked]

theorem push_length (sweep : Sweep) (position : Nat) :
    (sweep.push position).marks.bits.length = sweep.marks.bits.length := by
  by_cases unmarked : sweep.marks.isOpen position = true
  · rw [push_open sweep position unmarked]
    exact mark_length sweep.marks position
  · rw [push_marked sweep position unmarked]

theorem push_all_length (positions : List Nat) (sweep : Sweep) :
    (positions.foldl Sweep.push sweep).marks.bits.length = sweep.marks.bits.length := by
  induction positions generalizing sweep with
  | nil => rfl
  | cons position rest ih => rw [List.foldl_cons, ih, push_length]

theorem push_inside (sweep : Sweep) (position : Nat) (inside : position < sweep.marks.bits.length) :
    sweep.push? position = some (sweep.push position) := by
  have here := look_inside sweep.marks position inside
  by_cases unmarked : sweep.marks.isOpen position = true
  · rw [push_open sweep position unmarked]
    simp [Sweep.push?, here, unmarked]
  · rw [push_marked sweep position unmarked]
    simp [Sweep.push?, here, unmarked]

theorem push_all_inside (positions : List Nat) (sweep : Sweep)
    (inside : ∀ position ∈ positions, position < sweep.marks.bits.length) :
    positions.foldlM Sweep.push? sweep = some (positions.foldl Sweep.push sweep) := by
  induction positions generalizing sweep with
  | nil => rfl
  | cons position rest ih =>
      have here := push_inside sweep position (inside position List.mem_cons_self)
      have others := ih (sweep.push position) fun other member =>
        (push_length sweep position).symm ▸ inside other (List.mem_cons_of_mem position member)
      rw [List.foldlM_cons, here]
      exact others

section Search

variable (next : Nat → List Nat) (size : Nat) (ahead : ∀ a, ∀ b ∈ next a, b < size)

theorem sweep_step_length (sweep : Sweep) (length : sweep.marks.bits.length = size) :
    (sweep.step next).marks.bits.length = size := by
  cases onList : sweep.pending with
  | nil => simpa only [Sweep.step, onList] using length
  | cons position rest => simpa only [Sweep.step, onList, push_all_length] using length

include ahead in
theorem sweep_step_checked (sweep : Sweep) (length : sweep.marks.bits.length = size) :
    sweep.step? next = some (sweep.step next) := by
  cases onList : sweep.pending with
  | nil => simp only [Sweep.step?, Sweep.step, onList]
  | cons position rest =>
      simp only [Sweep.step?, Sweep.step, onList]
      exact push_all_inside _ _ fun other member => length ▸ ahead position other member

theorem walk_step_length (walk : Walk) (length : walk.marks.bits.length = size) :
    (walk.step next).marks.bits.length = size := by
  refine walk_step_cases next walk (fun after => after.marks.bits.length = size) (fun _ => length)
    (fun _ _ _ => length) (fun _ _ _ _ => length) fun position _ _ _ => ?_
  exact (mark_length walk.marks position).trans length

include ahead in
theorem walk_step_checked (walk : Walk) (waiting : ∀ position, .enter position ∈ walk.stack → position < size)
    (length : walk.marks.bits.length = size) : walk.step? next = some (walk.step next) := by
  cases tasks : walk.stack with
  | nil => simp only [Walk.step?, Walk.step, tasks]
  | cons task rest =>
      cases task with
      | leave position => simp only [Walk.step?, Walk.step, tasks]
      | enter position =>
          have here := look_inside walk.marks position (length ▸ waiting position (by simp [tasks]))
          have marked : (walk.marks.mark position).bits.length = size := (mark_length walk.marks position).trans length
          have found := unmarked_inside (walk.marks.mark position) (next position) fun other member =>
            marked ▸ ahead position other member
          by_cases unmarked : walk.marks.isOpen position = true
          · rw [walk_step_enter next walk position rest tasks unmarked]
            simp [Walk.step?, tasks, here, unmarked, found]
          · rw [walk_step_drop next walk position rest tasks unmarked]
            simp [Walk.step?, tasks, here, unmarked]

end Search

end MidIR
