import MidIR.Graph.Reachable
import MidIR.Proofs.Graph.Hop

set_option autoImplicit false

namespace MidIR

namespace Sweep

def found (sweep : Sweep) : List Nat := sweep.pending ++ sweep.taken

abbrev Sound (next : Nat → List Nat) (size first : Nat) (sweep : Sweep) : Prop :=
  sweep.marks.Explores next size first sweep.found

structure Closed (next : Nat → List Nat) (size first : Nat) (sweep : Sweep) : Prop where
  first : first ∈ sweep.found
  hops : ∀ a ∈ sweep.taken, ∀ b, Hop next size a b → b ∈ sweep.found

end Sweep

theorem push_open (sweep : Sweep) (position : Nat) (unmarked : sweep.marks.isOpen position = true) :
    sweep.push position =
      { sweep with marks := sweep.marks.mark position, pending := position :: sweep.pending } := by
  simp [Sweep.push, unmarked]

theorem push_marked (sweep : Sweep) (position : Nat) (marked : ¬ sweep.marks.isOpen position = true) :
    sweep.push position = sweep := by
  simp [Sweep.push, marked]

theorem push_taken (sweep : Sweep) (position : Nat) : (sweep.push position).taken = sweep.taken := by
  by_cases unmarked : sweep.marks.isOpen position = true
  · rw [push_open sweep position unmarked]
  · rw [push_marked sweep position unmarked]

theorem push_sound (next : Nat → List Nat) (size first : Nat) (sweep : Sweep) (position : Nat)
    (sound : sweep.Sound next size first) (reached : position < size → Reaches next size first position) :
    (sweep.push position).Sound next size first := by
  by_cases unmarked : sweep.marks.isOpen position = true
  · have inside := ((sound.tracks position).mp unmarked).1
    rw [push_open sweep position unmarked]
    exact explores_mark next size first sweep.marks sweep.found position sound unmarked (reached inside)
  · rw [push_marked sweep position unmarked]
    exact sound

theorem push_found (next : Nat → List Nat) (size first : Nat) (sweep : Sweep) (position other : Nat)
    (sound : sweep.Sound next size first) :
    other ∈ (sweep.push position).found ↔ other ∈ sweep.found ∨ other = position ∧ position < size := by
  by_cases unmarked : sweep.marks.isOpen position = true
  · have inside := ((sound.tracks position).mp unmarked).1
    rw [push_open sweep position unmarked]
    simp only [Sweep.found, List.cons_append, List.mem_cons, inside, and_true]
    exact or_comm
  · rw [push_marked sweep position unmarked]
    have marked := explores_marked next size first sweep.marks sweep.found position sound unmarked
    constructor
    · exact Or.inl
    · rintro (member | ⟨rfl, inside⟩)
      · exact member
      · exact marked inside

theorem push_all_taken (positions : List Nat) (sweep : Sweep) :
    (positions.foldl Sweep.push sweep).taken = sweep.taken := by
  induction positions generalizing sweep with
  | nil => rfl
  | cons position rest ih => rw [List.foldl_cons, ih, push_taken]

theorem push_all_sound (next : Nat → List Nat) (size first : Nat) (positions : List Nat) (sweep : Sweep)
    (sound : sweep.Sound next size first)
    (reached : ∀ position ∈ positions, position < size → Reaches next size first position) :
    (positions.foldl Sweep.push sweep).Sound next size first := by
  induction positions generalizing sweep with
  | nil => exact sound
  | cons position rest ih =>
      have here := push_sound next size first sweep position sound (reached position List.mem_cons_self)
      exact ih (sweep.push position) here fun other member => reached other (List.mem_cons_of_mem position member)

theorem push_all_found (next : Nat → List Nat) (size first : Nat) (positions : List Nat) (sweep : Sweep)
    (other : Nat) (sound : sweep.Sound next size first)
    (reached : ∀ position ∈ positions, position < size → Reaches next size first position) :
    other ∈ (positions.foldl Sweep.push sweep).found ↔
      other ∈ sweep.found ∨ other ∈ positions ∧ other < size := by
  induction positions generalizing sweep with
  | nil => simp
  | cons position rest ih =>
      have here := push_sound next size first sweep position sound (reached position List.mem_cons_self)
      have later := ih (sweep.push position) here fun q member => reached q (List.mem_cons_of_mem position member)
      rw [List.foldl_cons, later, push_found next size first sweep position other sound, List.mem_cons]
      constructor
      · rintro ((member | ⟨rfl, inside⟩) | ⟨member, inside⟩)
        · exact Or.inl member
        · exact Or.inr ⟨Or.inl rfl, inside⟩
        · exact Or.inr ⟨Or.inr member, inside⟩
      · rintro (member | ⟨rfl | member, inside⟩)
        · exact Or.inl (Or.inl member)
        · exact Or.inl (Or.inr ⟨rfl, inside⟩)
        · exact Or.inr ⟨member, inside⟩

theorem start_sound (next : Nat → List Nat) (size first : Nat) (inside : first < size) :
    (Sweep.start size first).Sound next size first ∧ (Sweep.start size first).Closed next size first := by
  have nothing : Sweep.Sound next size first ⟨Marks.clear size, [], []⟩ := explores_clear next size first
  refine ⟨push_sound next size first _ first nothing fun _ => .refl, ?_, ?_⟩
  · exact (push_found next size first _ first first nothing).mpr (Or.inr ⟨rfl, inside⟩)
  · intro a taken
    rw [Sweep.start, push_taken] at taken
    simp at taken

theorem take_found (position : Nat) (rest : List Nat) (sweep : Sweep) (onList : sweep.pending = position :: rest) :
    (Sweep.found { sweep with pending := rest, taken := position :: sweep.taken }).Perm sweep.found := by
  rw [Sweep.found, Sweep.found, onList]
  exact List.perm_middle

theorem take_sound (next : Nat → List Nat) (size first position : Nat) (rest : List Nat) (sweep : Sweep)
    (sound : sweep.Sound next size first) (onList : sweep.pending = position :: rest) :
    Sweep.Sound next size first { sweep with pending := rest, taken := position :: sweep.taken } :=
  explores_perm next size first sweep.marks _ _ sound (take_found position rest sweep onList)

theorem sweep_step_sound (next : Nat → List Nat) (size first : Nat) (sweep : Sweep)
    (sound : sweep.Sound next size first) (closed : sweep.Closed next size first) :
    (sweep.step next).Sound next size first ∧ (sweep.step next).Closed next size first := by
  cases onList : sweep.pending with
  | nil =>
      simp only [Sweep.step, onList]
      exact ⟨sound, closed⟩
  | cons position rest =>
      simp only [Sweep.step, onList]
      have moved := take_found position rest sweep onList
      have taken := take_sound next size first position rest sweep sound onList
      have here : Reaches next size first position := sound.reached position (by simp [Sweep.found, onList])
      have ahead : ∀ other ∈ next position, other < size → Reaches next size first other :=
        fun other member inside => here.tail ⟨member, inside⟩
      refine ⟨push_all_sound next size first (next position) _ taken ahead, ?_, ?_⟩
      · rw [push_all_found next size first (next position) _ first taken ahead]
        exact Or.inl (moved.mem_iff.mpr closed.first)
      · intro a member b hop
        rw [push_all_taken] at member
        rw [push_all_found next size first (next position) _ b taken ahead]
        rcases List.mem_cons.mp member with rfl | earlier
        · exact Or.inr hop
        · exact Or.inl (moved.mem_iff.mpr (closed.hops a earlier b hop))

theorem sweep_run_busy (next : Nat → List Nat) (sweep : Sweep) (busy : sweep.pending ≠ []) :
    sweep.run next = (sweep.step next).run next := by
  rw [Sweep.run, dif_pos busy]

theorem sweep_run_idle (next : Nat → List Nat) (sweep : Sweep) (idle : sweep.pending = []) :
    sweep.run next = sweep := by
  rw [Sweep.run, dif_neg (Classical.not_not.mpr idle)]

theorem sweep_run_sound (next : Nat → List Nat) (size first : Nat) (sweep : Sweep)
    (sound : sweep.Sound next size first) (closed : sweep.Closed next size first) :
    (sweep.run next).Sound next size first ∧ (sweep.run next).Closed next size first ∧
      (sweep.run next).pending = [] := by
  fun_induction Sweep.run next sweep with
  | case1 sweep busy ih =>
      obtain ⟨stepped, also⟩ := sweep_step_sound next size first sweep sound closed
      exact ih stepped also
  | case2 sweep idle => exact ⟨sound, closed, Classical.not_not.mp idle⟩

-- A finished sweep has taken what it can reach: nothing is pending, so what it took is closed.
theorem sweep_taken_iff (next : Nat → List Nat) (size first : Nat) (inside : first < size) (position : Nat) :
    position ∈ ((Sweep.start size first).run next).taken ↔ Reaches next size first position := by
  obtain ⟨started, begun⟩ := start_sound next size first inside
  obtain ⟨sound, closed, finished⟩ := sweep_run_sound next size first _ started begun
  have all : ((Sweep.start size first).run next).found = ((Sweep.start size first).run next).taken := by
    rw [Sweep.found, finished, List.nil_append]
  constructor
  · intro member
    exact sound.reached position (all ▸ member)
  · exact reaches_closed next size first position _ (all ▸ closed.first) (all ▸ closed.hops)

end MidIR
