import MidIR.Text.Decimal

set_option autoImplicit false

namespace MidIR

structure Location where
  line : UInt32
  column : UInt32
  pos : UInt32
  span : UInt32
deriving DecidableEq, Hashable

def Location.synthetic : Location := ⟨0, 0, 0, 0⟩

instance : Inhabited Location := ⟨Location.synthetic⟩

def Location.text (place : Location) : String :=
  decimal place.line.toNat ++ ":" ++ decimal place.column.toNat

end MidIR
