import MidIR.Op.Basic

set_option autoImplicit false

namespace MidIR

-- A variable that is read by name counts as its slot, and so does one that a closure captures.
def Value.reads : Value → List Operand
  | .const _ | .typedString _ _ _ | .global _ | .constField _ | .fieldDefault _ => []
  | .emptyCollection _ => []
  | .var kind name => [.var kind name]
  | .construct _ args | .collection _ args | .spread _ args | .tuple args | .call _ args => args
  | .mixed _ elements => elements.map Element.value
  | .record fields => fields.map Prod.snd
  | .lambda _ _ captured => captured.map (.var .captured)
  | .callLambda closure args => closure :: args
  | .index base _ | .indices base _ | .member _ base _ | .members _ base _ => [base]
  | .project _ base _ | .projectConcept base _ => [base]
  | .updateIndices base updates => base :: updates.map Prod.snd
  | .updateMembers _ base updates => base :: updates.map Prod.snd
  | .extend _ base update => [base, update]
  | .unary _ arg => [arg]
  | .binary _ lhs rhs => [lhs, rhs]
  | .copy source | .truthy source => [source]

namespace Op

def reads : Op → List Operand
  | .assign _ value => value.reads
  | .store _ source | .setReturn source => [source]
  | .assert cond | .check cond => [cond]
  | .debug value => value.toList
  | .branch arg _ _ | .branchNone arg _ _ => [arg]
  | .jump _ | .liveStart _ _ | .liveEnd _ => []

-- A store writes a variable and defines no temporary.
def target? : Op → Option Temp
  | .assign target _ => some target
  | _ => none

-- The returned value is no operand, so setting it writes none.
def writes (op : Op) : List Operand :=
  match op.target? with
  | some target => [.temp target]
  | none =>
      match op with
      | .store name _ => [.var .localVar name]
      | _ => []

def temps (op : Op) : List Temp := op.target?.toList ++ op.reads.filterMap Operand.temp?

end Op

end MidIR
