import Mathlib.Logic.Relation
import MidIR.Graph.Marks

set_option autoImplicit false

namespace MidIR

def Hop (next : Nat → List Nat) (size : Nat) (a b : Nat) : Prop := b ∈ next a ∧ b < size

abbrev Reaches (next : Nat → List Nat) (size : Nat) : Nat → Nat → Prop :=
  Relation.ReflTransGen (Hop next size)

def Marks.Tracks (marks : Marks) (size : Nat) (seen : List Nat) : Prop :=
  ∀ position, marks.isOpen position = true ↔ position < size ∧ position ∉ seen

theorem tracks_clear (size : Nat) : (Marks.clear size).Tracks size [] := by
  intro position
  simp [marks_open_clear]

theorem tracks_mark (marks : Marks) (size position : Nat) (seen : List Nat)
    (tracks : marks.Tracks size seen) : (marks.mark position).Tracks size (position :: seen) := by
  intro other
  have before := tracks other
  rw [marks_open_mark, Bool.and_eq_true, before, decide_eq_true_iff, List.mem_cons, not_or]
  constructor
  · intro ⟨different, inside, fresh⟩
    exact ⟨inside, Ne.symm different, fresh⟩
  · intro ⟨inside, different, fresh⟩
    exact ⟨Ne.symm different, inside, fresh⟩

-- What a search has seen: the marks tell it, and nothing was seen twice or without a way to it.
structure Marks.Explores (next : Nat → List Nat) (size first : Nat) (marks : Marks) (seen : List Nat) : Prop where
  tracks : marks.Tracks size seen
  distinct : seen.Nodup
  inside : ∀ position ∈ seen, position < size
  reached : ∀ position ∈ seen, Reaches next size first position

theorem explores_clear (next : Nat → List Nat) (size first : Nat) :
    (Marks.clear size).Explores next size first [] :=
  ⟨tracks_clear size, List.nodup_nil, by simp, by simp⟩

theorem explores_mark (next : Nat → List Nat) (size first : Nat) (marks : Marks) (seen : List Nat)
    (position : Nat) (explores : marks.Explores next size first seen)
    (unmarked : marks.isOpen position = true) (reached : Reaches next size first position) :
    (marks.mark position).Explores next size first (position :: seen) := by
  obtain ⟨inside, fresh⟩ := (explores.tracks position).mp unmarked
  refine ⟨tracks_mark marks size position seen explores.tracks,
    List.nodup_cons.mpr ⟨fresh, explores.distinct⟩, ?_, ?_⟩
  · intro other member
    rcases List.mem_cons.mp member with rfl | earlier
    · exact inside
    · exact explores.inside other earlier
  · intro other member
    rcases List.mem_cons.mp member with rfl | earlier
    · exact reached
    · exact explores.reached other earlier

theorem explores_perm (next : Nat → List Nat) (size first : Nat) (marks : Marks) (seen other : List Nat)
    (explores : marks.Explores next size first seen) (moved : other.Perm seen) :
    marks.Explores next size first other := by
  refine ⟨?_, moved.nodup_iff.mpr explores.distinct, ?_, ?_⟩
  · intro position
    rw [explores.tracks position, moved.mem_iff]
  · intro position member
    exact explores.inside position (moved.mem_iff.mp member)
  · intro position member
    exact explores.reached position (moved.mem_iff.mp member)

theorem explores_marked (next : Nat → List Nat) (size first : Nat) (marks : Marks) (seen : List Nat)
    (position : Nat) (explores : marks.Explores next size first seen)
    (marked : ¬ marks.isOpen position = true) (inside : position < size) : position ∈ seen := by
  apply Classical.byContradiction
  intro fresh
  exact marked ((explores.tracks position).mpr ⟨inside, fresh⟩)

theorem reaches_closed (next : Nat → List Nat) (size first position : Nat) (seen : List Nat)
    (member : first ∈ seen) (closed : ∀ a ∈ seen, ∀ b, Hop next size a b → b ∈ seen)
    (reaches : Reaches next size first position) : position ∈ seen := by
  induction reaches with
  | refl => exact member
  | tail _ hop ih => exact closed _ ih _ hop

end MidIR
