import MidIR.BlockTable

set_option autoImplicit false

namespace MidIR.BlockTable

def successors (table : BlockTable) (label : Label) : List Label :=
  match table.get? label with
  | some block => block.successors
  | none => []

def successorPositions (table : BlockTable) (position : Nat) : List Nat :=
  match table.blockAt? position with
  | some block => block.successors.filterMap table.position?
  | none => []

def addPredecessor (label : Label) (targets : List Label)
    (lists : Std.ExtHashMap Label (List Label)) : Std.ExtHashMap Label (List Label) :=
  targets.foldl (fun lists target => lists.modify target (· ++ [label])) lists

-- A source is listed once, whether or not both branches of its terminator lead there.
def predecessors (table : BlockTable) : Std.ExtHashMap Label (List Label) :=
  table.blocks.foldl
    (fun lists block => addPredecessor block.label block.successors.eraseDups lists)
    (table.labels.foldl (fun lists label => lists.insert label []) ∅)

-- All instructions count, so a jump in the middle of a block is found as well.
def danglingTargets (table : BlockTable) : List (Label × Label) :=
  table.blocks.flatMap fun block =>
    (block.instrs.flatMap fun instr => instr.op.successors).filterMap fun target =>
      if table.contains target then none else some (block.label, target)

end MidIR.BlockTable
