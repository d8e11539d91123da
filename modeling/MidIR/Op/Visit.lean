import MidIR.Op.Basic

set_option autoImplicit false

namespace MidIR

def visitSecond {κ : Type} {m : Type → Type} [Monad m] (visit : Operand → m Operand)
    (pair : κ × Operand) : m (κ × Operand) := do
  let a ← visit pair.2
  return (pair.1, a)

def Element.visitReads {m : Type → Type} [Monad m] (visit : Operand → m Operand)
    (element : Element) : m Element := do
  let a ← visit element.value
  return ⟨element.expand, a⟩

-- From left to right. Variables that are named and not held are storage, and are passed over.
def Value.visitReads {m : Type → Type} [Monad m] (visit : Operand → m Operand) : Value → m Value
  | .const literal => return .const literal
  | .typedString literal type stringType => return .typedString literal type stringType
  | .global key => return .global key
  | .constField key => return .constField key
  | .fieldDefault key => return .fieldDefault key
  | .var kind name => return .var kind name
  | .construct type args => return .construct type (← args.mapM visit)
  | .emptyCollection type => return .emptyCollection type
  | .collection type elements => return .collection type (← elements.mapM visit)
  | .spread type sources => return .spread type (← sources.mapM visit)
  | .mixed type elements => return .mixed type (← elements.mapM (Element.visitReads visit))
  | .tuple elements => return .tuple (← elements.mapM visit)
  | .record fields => return .record (← fields.mapM (visitSecond visit))
  | .lambda key signature captured => return .lambda key signature captured
  | .call callee args => return .call callee (← args.mapM visit)
  | .callLambda closure args => return .callLambda (← visit closure) (← args.mapM visit)
  | .index base position => return .index (← visit base) position
  | .indices base positions => return .indices (← visit base) positions
  | .member kind base name => return .member kind (← visit base) name
  | .members kind base names => return .members kind (← visit base) names
  | .project shape base type => return .project shape (← visit base) type
  | .projectConcept base types => return .projectConcept (← visit base) types
  | .updateIndices base updates =>
      return .updateIndices (← visit base) (← updates.mapM (visitSecond visit))
  | .updateMembers kind base updates =>
      return .updateMembers kind (← visit base) (← updates.mapM (visitSecond visit))
  | .extend kind base update => return .extend kind (← visit base) (← visit update)
  | .unary op arg => return .unary op (← visit arg)
  | .binary op lhs rhs => return .binary op (← visit lhs) (← visit rhs)
  | .copy source => return .copy (← visit source)
  | .truthy source => return .truthy (← visit source)

namespace Op

def visitReads {m : Type → Type} [Monad m] (visit : Operand → m Operand) : Op → m Op
  | .assign target value => return .assign target (← value.visitReads visit)
  | .store name source => return .store name (← visit source)
  | .setReturn source => return .setReturn (← visit source)
  | .assert cond => return .assert (← visit cond)
  | .check cond => return .check (← visit cond)
  | .debug none => return .debug none
  | .debug (some value) => return .debug (some (← visit value))
  | .jump target => return .jump target
  | .branch cond onTrue onFalse => return .branch (← visit cond) onTrue onFalse
  | .branchNone arg onNone onSome => return .branchNone (← visit arg) onNone onSome
  | .liveStart name type => return .liveStart name type
  | .liveEnd name => return .liveEnd name

def mapReads (f : Operand → Operand) (op : Op) : Op := (op.visitReads (m := Id) f).run

end Op

def replaceAndCount (old new : Operand) (a : Operand) : StateM Nat Operand := do
  if a = old then
    modify (· + 1)
    return new
  else
    return a

def Op.substitute (old new : Operand) (op : Op) : Op × Nat :=
  (op.visitReads (replaceAndCount old new)).run 0

end MidIR
