import MidIR.Body
import MidIR.Graph.Reachable
import MidIR.Problem

set_option autoImplicit false

namespace MidIR

structure Convention where
  entry : Label := Label.entry
  exit : Label := Label.exit
  requireReachable : Bool := true
deriving DecidableEq

-- The first of the instructions stands at position `offset` of its block.
def earlyTerminators (label : Label) : Nat → List Instr → List Problem
  | _, [] => []
  | offset, instr :: rest =>
      let later := earlyTerminators label (offset + 1) rest
      if instr.isTerminator then .earlyTerminator label offset instr.op.kind :: later else later

namespace Block

def idleProblems (exit : Label) (block : Block) : List Problem :=
  if block.label = exit then []
  else
    match block.instrs.getLast? with
    | none => [.emptyBlock block.label]
    | some last => [.unterminated block.label last.op.kind]

def shapeProblems (exit : Label) (block : Block) : List Problem :=
  match block.endPosition? with
  | none => block.idleProblems exit
  | some position =>
      earlyTerminators block.label 0 (block.instrs.take position)
        -- Even the exit must end in a jump once it holds anything but markers.
        ++ match block.instrs[position]? with
          | some last =>
              if last.isTerminator then [] else [.unterminated block.label last.op.kind]
          | none => []

end Block

namespace BlockTable

def missingLabels (convention : Convention) (table : BlockTable) : List Problem :=
  (if table.contains convention.entry then [] else [.missingEntry convention.entry])
    ++ (if table.contains convention.exit then [] else [.missingExit convention.exit])

-- Without an entry control could reach no block at all, and nothing is reported.
def unreachableProblems (convention : Convention) (table : BlockTable) : List Problem :=
  if convention.requireReachable && table.contains convention.entry then
    ((table.unreachable convention.entry).filter fun label => label ≠ convention.exit).map
      fun label => .unreachable label convention.entry
  else
    []

def problems (convention : Convention) (table : BlockTable) : List Problem :=
  table.missingLabels convention
    ++ table.blocks.flatMap (Block.shapeProblems convention.exit)
    ++ table.danglingTargets.map (fun (label, target) => .danglingTarget label target)
    ++ table.unreachableProblems convention

end BlockTable

namespace Body

def problems (convention : Convention) (body : Body) : List Problem :=
  match body.payload with
  | .primitive _ => [.primitiveBody body.file]
  | .blocks table => table.problems convention

def validate (convention : Convention) (body : Body) : Except (List Problem) Unit :=
  match body.problems convention with
  | [] => .ok ()
  | problems => .error problems

end Body

end MidIR
