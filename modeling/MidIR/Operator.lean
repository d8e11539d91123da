set_option autoImplicit false

namespace MidIR

inductive UnaryOp where
  | plus
  | neg
  | not
deriving DecidableEq, Hashable

def UnaryOp.symbol : UnaryOp → String
  | .plus => "+"
  | .neg => "-"
  | .not => "!"

inductive ArithOp where
  | add
  | sub
  | mul
  | div
  | mod
deriving DecidableEq, Hashable

def ArithOp.symbol : ArithOp → String
  | .add => "+"
  | .sub => "-"
  | .mul => "*"
  | .div => "/"
  | .mod => "%"

inductive EqualityOp where
  | eq
  | ne
deriving DecidableEq, Hashable

def EqualityOp.symbol : EqualityOp → String
  | .eq => "=="
  | .ne => "!="

inductive OrderOp where
  | lt
  | gt
  | le
  | ge
deriving DecidableEq, Hashable

def OrderOp.symbol : OrderOp → String
  | .lt => "<"
  | .gt => ">"
  | .le => "<="
  | .ge => ">="

inductive BinaryOp where
  | arith (op : ArithOp)
  | equality (op : EqualityOp)
  | order (op : OrderOp)
deriving DecidableEq, Hashable

def BinaryOp.symbol : BinaryOp → String
  | .arith op => op.symbol
  | .equality op => op.symbol
  | .order op => op.symbol

theorem unary_symbol_injective (a b : UnaryOp) (same : a.symbol = b.symbol) : a = b := by
  revert same
  cases a <;> cases b <;> decide

theorem binary_symbol_injective (a b : BinaryOp) (same : a.symbol = b.symbol) : a = b := by
  revert same
  rcases a with a | a | a <;> rcases b with b | b | b <;> cases a <;> cases b <;> decide

end MidIR
