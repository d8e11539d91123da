import MidIR.Temp

set_option autoImplicit false

namespace MidIR

-- None once all registers are gone.
structure TempSupply where
  next : Option Temp
deriving DecidableEq

namespace TempSupply

def full : TempSupply := ⟨some Temp.first⟩

def after : Option Temp → TempSupply
  | none => full
  | some highest => ⟨highest.succ?⟩

def fresh (supply : TempSupply) : Option Temp × TempSupply :=
  (supply.next, ⟨supply.next.bind Temp.succ?⟩)

def take : Nat → TempSupply → List (Option Temp) × TempSupply
  | 0, supply => ([], supply)
  | n + 1, supply =>
      let (answer, rest) := supply.fresh
      let (answers, left) := take n rest
      (answer :: answers, left)

def exhausted (supply : TempSupply) : Bool := supply.next.isNone

-- Registers that were skipped count as well.
def count (supply : TempSupply) : Nat :=
  match supply.next with
  | some t => t.id.toNat
  | none => UInt32.size

end TempSupply

theorem supply_fresh_exhausted (supply : TempSupply) (gone : supply.next = none) :
    supply.fresh = (none, supply) := by
  cases supply
  cases gone
  rfl

end MidIR
