import MidIR.Temp

set_option autoImplicit false

namespace MidIR

inductive VarKind where
  | captured
  | parameter
  | localVar
deriving DecidableEq, Hashable, Ord

inductive Register where
  | temp (t : Temp)
  | var (kind : VarKind) (name : String)
deriving DecidableEq, Hashable, Ord

inductive Constant where
  | none
  | true
  | false
  | int (text : String)
  | string (text : String)
deriving DecidableEq, Hashable, Ord

inductive Operand where
  | register (r : Register)
  | constant (c : Constant)
deriving DecidableEq, Hashable, Ord

def VarKind.sigil : VarKind → String
  | .captured => "^"
  | .parameter => "$"
  | .localVar => "%"

namespace Register

def identity : Register → String
  | .temp t => t.text
  | .var kind name => kind.sigil ++ name

def text : Register → String
  | .temp t => t.text
  | .var _ name => name

def temp? : Register → Option Temp
  | .temp t => some t
  | .var _ _ => none

def name? : Register → Option String
  | .temp _ => none
  | .var _ name => some name

end Register

def Constant.identity : Constant → String
  | .none => "=none="
  | .true => "=true="
  | .false => "=false="
  | .int text => "=int=" ++ text
  | .string text => "=string=" ++ text

def Constant.text : Constant → String
  | .none => "none"
  | .true => "true"
  | .false => "false"
  | .int text => text
  | .string text => text

namespace Operand

abbrev temp (t : Temp) : Operand := .register (.temp t)

abbrev var (kind : VarKind) (name : String) : Operand := .register (.var kind name)

def identity : Operand → String
  | .register r => r.identity
  | .constant c => c.identity

def text : Operand → String
  | .register r => r.text
  | .constant c => c.text

def isRegister : Operand → Bool
  | .register _ => true
  | .constant _ => false

def temp? : Operand → Option Temp
  | .register r => r.temp?
  | .constant _ => none

end Operand

@[simp] theorem operand_temp_some_iff (a : Operand) (t : Temp) : a.temp? = some t ↔ a = .temp t := by
  rcases a with (u | ⟨kind, name⟩) | c <;> simp [Operand.temp?, Register.temp?]

end MidIR
