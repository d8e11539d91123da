import MidIR.Instr

set_option autoImplicit false

namespace MidIR

def lastPosition? {α : Type} (p : α → Bool) : List α → Option Nat
  | [] => none
  | a :: rest =>
      match lastPosition? p rest with
      | some position => some (position + 1)
      | none => if p a then some 0 else none

theorem last_position_none_iff {α : Type} (p : α → Bool) (items : List α) :
    lastPosition? p items = none ↔ ∀ a ∈ items, p a = false := by
  induction items with
  | nil => simp [lastPosition?]
  | cons a rest ih =>
      cases found : lastPosition? p rest with
      | none =>
          have absent := ih.mp found
          by_cases here : p a <;> simp [lastPosition?, found, here]
          exact absent
      | some position =>
          have present : ¬ ∀ a ∈ rest, p a = false := fun absent => by simp [ih.mpr absent] at found
          simp only [lastPosition?, found, reduceCtorEq, false_iff]
          intro absent
          exact present fun b member => absent b (List.mem_cons_of_mem a member)

theorem last_position_some_iff {α : Type} (p : α → Bool) (items : List α) (position : Nat) :
    lastPosition? p items = some position ↔
      ∃ before a after, items = before ++ a :: after ∧ before.length = position ∧ p a = true ∧
        ∀ b ∈ after, p b = false := by
  induction items generalizing position with
  | nil => simp [lastPosition?]
  | cons first rest ih =>
      constructor
      · intro found
        cases later : lastPosition? p rest with
        | none =>
            have absent := (last_position_none_iff p rest).mp later
            by_cases here : p first
            · have zero : 0 = position := by simpa [lastPosition?, later, here] using found
              exact ⟨[], first, rest, rfl, zero, here, absent⟩
            · simp [lastPosition?, later, here] at found
        | some inner =>
            have shifted : inner + 1 = position := by simpa [lastPosition?, later] using found
            obtain ⟨before, a, after, split, length, holds, absent⟩ := (ih inner).mp later
            refine ⟨first :: before, a, after, by simp [split], ?_, holds, absent⟩
            simp [length, shifted]
      · rintro ⟨before, a, after, split, length, holds, absent⟩
        cases before with
        | nil =>
            obtain ⟨rfl, rfl⟩ := List.cons_eq_cons.mp split
            have later := (last_position_none_iff p rest).mpr absent
            simp only [List.length_nil] at length
            simp [lastPosition?, later, holds, length]
        | cons b before =>
            obtain ⟨rfl, rest_split⟩ := List.cons_eq_cons.mp split
            have later := (ih before.length).mpr ⟨before, a, after, rest_split, rfl, holds, absent⟩
            simpa [lastPosition?, later] using length

structure Block where
  label : Label
  instrs : List Instr := []
deriving DecidableEq, Hashable

namespace Block

def firstLine? (block : Block) : Option UInt32 := block.instrs.head?.map fun instr => instr.place.line

def endPosition? (block : Block) : Option Nat :=
  lastPosition? (fun instr => !instr.isLifetimeMarker) block.instrs

def terminator? (block : Block) : Option Instr :=
  (block.endPosition?.bind fun position => block.instrs[position]?).filter Instr.isTerminator

def successors (block : Block) : List Label :=
  match block.terminator? with
  | some instr => instr.op.successors
  | none => []

def temps (block : Block) : List Temp := block.instrs.flatMap fun instr => instr.op.temps

def maxTemp? (block : Block) : Option Temp := block.temps.max?

def text (block : Block) : String :=
  block.label.text ++ ":\n"
    ++ String.join (block.instrs.map fun instr => "  " ++ instr.text ++ "\n")

def push (instr : Instr) (block : Block) : Block :=
  { block with instrs := block.instrs ++ [instr] }

def insertAt? (position : Nat) (instr : Instr) (block : Block) : Option Block :=
  if position ≤ block.instrs.length then
    some { block with instrs := block.instrs.insertIdx position instr }
  else
    none

def removeAt? (position : Nat) (block : Block) : Option (Instr × Block) :=
  block.instrs[position]?.map fun instr =>
    (instr, { block with instrs := block.instrs.eraseIdx position })

def setOpAt? (position : Nat) (op : Op) (block : Block) : Option Block :=
  if position < block.instrs.length then
    some { block with instrs := block.instrs.modify position fun instr => { instr with op } }
  else
    none

def clear (block : Block) : Block := { block with instrs := [] }

def substitute (old new : Operand) (block : Block) : Block × Nat :=
  let results := block.instrs.map (Instr.substitute old new)
  ({ block with instrs := results.map Prod.fst }, results.foldr (fun result total => result.2 + total) 0)

end Block

end MidIR
