set_option autoImplicit false

namespace MidIR

structure Marks where
  bits : List Bool
deriving DecidableEq

namespace Marks

def clear (size : Nat) : Marks := ⟨List.replicate size false⟩

-- A position outside the table counts as marked, so no search goes there.
def isOpen (marks : Marks) (position : Nat) : Bool := marks.bits[position]? == some false

def mark (marks : Marks) (position : Nat) : Marks := ⟨marks.bits.set position true⟩

def openCount (marks : Marks) : Nat := marks.bits.count false

end Marks

theorem marks_open_clear (size position : Nat) :
    (Marks.clear size).isOpen position = decide (position < size) := by
  by_cases inside : position < size <;> simp [Marks.isOpen, Marks.clear, inside]

theorem marks_open_mark (marks : Marks) (position other : Nat) :
    (marks.mark position).isOpen other = (decide (position ≠ other) && marks.isOpen other) := by
  by_cases same : position = other
  · subst same
    by_cases inside : position < marks.bits.length <;>
      simp [Marks.isOpen, Marks.mark, inside]
  · simp [Marks.isOpen, Marks.mark, same]

theorem marks_open_count_mark (marks : Marks) (position : Nat) (unmarked : marks.isOpen position) :
    (marks.mark position).openCount + 1 = marks.openCount := by
  have found : marks.bits[position]? = some false := by simpa [Marks.isOpen] using unmarked
  obtain ⟨inside, value⟩ := List.getElem?_eq_some_iff.mp found
  have positive : 0 < marks.bits.count false :=
    List.count_pos_iff.mpr (value ▸ List.getElem_mem inside)
  have counted : (marks.bits.set position true).count false = marks.bits.count false - 1 := by
    simp [List.count_set inside, value]
  simp only [Marks.openCount, Marks.mark]
  omega

end MidIR
