import Mathlib.Logic.Function.Iterate
import MidIR.BlockTable

set_option autoImplicit false

namespace MidIR

-- A step in two forms: one of them fails where it looks at a position outside the table.
structure Loop (σ : Type) where
  step : σ → σ
  step? : σ → Option σ
  waiting : σ → List Nat
  works? : σ → Option Nat
  emitted : σ → List Nat

def Loop.after {σ : Type} (loop : Loop σ) (n : Nat) (state : σ) : σ := loop.step^[n] state

-- From `first` the loop comes to `last` within `limit` steps. It meets positions of blocks only, so
-- that no step fails, and it works on none of them twice.
structure BlockTable.Halts {σ : Type} (table : BlockTable) (loop : Loop σ) (limit : Nat) (first last : σ) : Prop where
  inside : ∀ n, ∀ position ∈ loop.waiting (loop.after n first), position < table.size
  checked : ∀ n, loop.step? (loop.after n first) = some (loop.after (n + 1) first)
  once : ∀ m n position, loop.works? (loop.after m first) = some position →
    loop.works? (loop.after n first) = some position → m = n
  resolved : ∀ n, ∀ position ∈ loop.emitted (loop.after n first), ∃ block, table.blockAt? position = some block
  ends : ∃ n ≤ limit, loop.waiting (loop.after n first) = [] ∧ loop.after n first = last

variable {σ : Type} (loop : Loop σ)

theorem after_succ (n : Nat) (state : σ) : loop.after (n + 1) state = loop.step (loop.after n state) :=
  Function.iterate_succ_apply' loop.step n state

theorem after_keeps (holds : σ → Prop) (kept : ∀ state, holds state → holds (loop.step state)) (n : Nat)
    (state : σ) (begun : holds state) : holds (loop.after n state) := by
  induction n with
  | zero => exact begun
  | succ n ih =>
      rw [after_succ]
      exact kept _ ih

theorem works_once (record : σ → List Nat) (grows : ∀ state, record state ⊆ record (loop.step state))
    (recorded : ∀ state position, loop.works? state = some position → position ∈ record (loop.step state))
    (first : σ)
    (fresh : ∀ n position, loop.works? (loop.after n first) = some position →
      position ∉ record (loop.after n first))
    (m n position : Nat) (one : loop.works? (loop.after m first) = some position)
    (other : loop.works? (loop.after n first) = some position) : m = n := by
  have never : ∀ i j, i < j → loop.works? (loop.after i first) = some position →
      loop.works? (loop.after j first) ≠ some position := by
    intro i j before earlier later
    have kept : ∀ k, position ∈ record (loop.after (i + 1 + k) first) := by
      intro k
      induction k with
      | zero =>
          rw [Nat.add_zero, after_succ]
          exact recorded _ position earlier
      | succ k ih =>
          rw [← Nat.add_assoc, after_succ]
          exact grows _ ih
    obtain ⟨k, rfl⟩ := Nat.exists_eq_add_of_le (Nat.succ_le_of_lt before)
    exact fresh _ position later (kept k)
  rcases Nat.lt_trichotomy m n with before | same | after
  · exact absurd other (never m n before one)
  · exact same
  · exact absurd one (never n m after other)

theorem loop_ends (run : σ → σ) (work : σ → Nat) (idle : ∀ state, loop.waiting state = [] → run state = state)
    (busy : ∀ state, loop.waiting state ≠ [] → run state = run (loop.step state))
    (shrinks : ∀ state, loop.waiting state ≠ [] → work (loop.step state) < work state) (state : σ) :
    ∃ n ≤ work state, loop.waiting (loop.after n state) = [] ∧ loop.after n state = run state := by
  induction size : work state using Nat.strongRecOn generalizing state with
  | ind size ih =>
      by_cases nothing : loop.waiting state = []
      · exact ⟨0, Nat.zero_le _, nothing, (idle state nothing).symm⟩
      · have smaller := shrinks state nothing
        obtain ⟨n, bound, done, reached⟩ := ih _ (by omega) (loop.step state) rfl
        exact ⟨n + 1, by omega, done, reached.trans (busy state nothing).symm⟩

end MidIR
