import MidIR.Location
import MidIR.Op.Footprint
import MidIR.Op.Visit
import MidIR.Op.Text

set_option autoImplicit false

namespace MidIR

structure Instr where
  place : Location
  op : Op
deriving DecidableEq, Hashable

namespace Instr

def isTerminator (instr : Instr) : Bool := instr.op.isTerminator

def isLifetimeMarker (instr : Instr) : Bool := instr.op.isLifetimeMarker

def text (instr : Instr) : String := instr.op.text

def substitute (old new : Operand) (instr : Instr) : Instr × Nat :=
  let (op, count) := instr.op.substitute old new
  ({ instr with op }, count)

end Instr

end MidIR
