import Std.Data.ExtHashMap
import MidIR.Block

set_option autoImplicit false

namespace MidIR

structure BlockTable where
  blocks : List Block
  -- Each label of a block, and no other, has the position of its block.
  index : Std.ExtHashMap Label Nat
deriving DecidableEq

namespace BlockTable

def empty : BlockTable := ⟨[], ∅⟩

def size (table : BlockTable) : Nat := table.blocks.length

def labels (table : BlockTable) : List Label := table.blocks.map Block.label

def position? (table : BlockTable) (label : Label) : Option Nat := table.index[label]?

def blockAt? (table : BlockTable) (position : Nat) : Option Block := table.blocks[position]?

def contains (table : BlockTable) (label : Label) : Bool := table.index.contains label

def get? (table : BlockTable) (label : Label) : Option Block :=
  (table.position? label).bind table.blockAt?

-- Returns the block that had the label before.
def insert (block : Block) (table : BlockTable) : Option Block × BlockTable :=
  match table.position? block.label with
  | some position =>
      (table.blockAt? position, { table with blocks := table.blocks.set position block })
  | none =>
      (none, ⟨table.blocks ++ [block], table.index.insert block.label table.size⟩)

-- Where a block stands once the block at `gap` is gone.
def closeGap (gap position : Nat) : Nat := if gap < position then position - 1 else position

def remove (label : Label) (table : BlockTable) : Option Block × BlockTable :=
  match table.position? label with
  | some position =>
      (table.blockAt? position,
        ⟨table.blocks.eraseIdx position,
          (table.index.erase label).map fun _ other => closeGap position other⟩)
  | none => (none, table)

def edit (label : Label) (change : List Instr → List Instr) (table : BlockTable) : BlockTable :=
  match table.position? label with
  | some position =>
      { table with
        blocks := table.blocks.modify position fun block =>
          { block with instrs := change block.instrs } }
  | none => table

def editAll (change : Label → List Instr → List Instr) (table : BlockTable) : BlockTable :=
  { table with
    blocks := table.blocks.map fun block =>
      { block with instrs := change block.label block.instrs } }

def ofList (blocks : List Block) : BlockTable :=
  blocks.foldl (fun table block => (table.insert block).2) empty

def substitute (old new : Operand) (table : BlockTable) : BlockTable × List (Label × Nat) :=
  (table.editAll fun _ instrs => instrs.map fun instr => (instr.substitute old new).1,
    table.blocks.map fun block => (block.label, (block.substitute old new).2))

end BlockTable

end MidIR
