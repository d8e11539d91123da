import MidIR.Key
import MidIR.Operator
import MidIR.Operand
import MidIR.Op.Kind

set_option autoImplicit false

namespace MidIR

structure Element where
  expand : Bool
  value : Operand
deriving DecidableEq, Hashable

-- Methods take their receiver as first argument.
inductive Callee where
  | function (key : FunctionKey)
  | static (key : StaticKey)
  | method (key : MethodKey)
  | virtual (key : VirtualMethodKey)
deriving DecidableEq, Hashable

def Callee.text : Callee → String
  | .function key => key.text
  | .static key => key.text
  | .method key => key.text
  | .virtual key => key.text

inductive Member where
  | property
  | field
deriving DecidableEq, Hashable

inductive Shape where
  | tuple
  | record
deriving DecidableEq, Hashable

inductive Aggregate where
  | tuple
  | record
  | object
deriving DecidableEq, Hashable

inductive Value where
  | const (literal : Constant)
  | typedString (literal : String) (type : TypeKey) (stringType : ResolvedTypeKey)
  | global (key : GlobalKey)
  | constField (key : ConstKey)
  | fieldDefault (key : FieldKey)
  | var (kind : VarKind) (name : String)
  | construct (type : TypeKey) (args : List Operand)
  | emptyCollection (type : TypeKey)
  | collection (type : TypeKey) (elements : List Operand)
  | spread (type : TypeKey) (sources : List Operand)
  | mixed (type : TypeKey) (elements : List Element)
  | tuple (elements : List Operand)
  | record (fields : List (String × Operand))
  | lambda (key : LambdaKey) (signature : ResolvedTypeKey) (captured : List String)
  | call (callee : Callee) (args : List Operand)
  | callLambda (closure : Operand) (args : List Operand)
  | index (base : Operand) (position : Nat)
  | indices (base : Operand) (positions : List Nat)
  | member (kind : Member) (base : Operand) (name : String)
  | members (kind : Member) (base : Operand) (names : List String)
  | project (shape : Shape) (base : Operand) (type : ResolvedTypeKey)
  | projectConcept (base : Operand) (types : List TypeKey)
  | updateIndices (base : Operand) (updates : List (Nat × Operand))
  | updateMembers (kind : Member) (base : Operand) (updates : List (String × Operand))
  | extend (kind : Aggregate) (base : Operand) (update : Operand)
  | unary (op : UnaryOp) (arg : Operand)
  | binary (op : BinaryOp) (lhs : Operand) (rhs : Operand)
  | copy (source : Operand)
  | truthy (source : Operand)
deriving DecidableEq, Hashable

inductive Op where
  | assign (target : Temp) (value : Value)
  | store (name : String) (source : Operand)
  | setReturn (source : Operand)
  | assert (cond : Operand)
  | check (cond : Operand)
  -- Trace a value, or stop at a breakpoint if there is none.
  | debug (value : Option Operand)
  | jump (target : Label)
  | branch (cond : Operand) (onTrue : Label) (onFalse : Label)
  | branchNone (arg : Operand) (onNone : Label) (onSome : Label)
  | liveStart (name : String) (type : ResolvedTypeKey)
  | liveEnd (name : String)
deriving DecidableEq, Hashable

def Value.kind : Value → Kind
  | .const _ => .loadConst
  | .typedString _ _ _ => .loadTypedString
  | .global _ => .loadGlobal
  | .constField _ => .loadConstField
  | .fieldDefault _ => .loadFieldDefault
  | .var .captured _ => .readCaptured
  | .var .parameter _ => .readParameter
  | .var .localVar _ => .readLocal
  | .construct _ _ => .construct
  | .emptyCollection _ => .emptyCollection
  | .collection _ _ => .collection
  | .spread _ _ => .spread
  | .mixed _ _ => .mixed
  | .tuple _ => .tuple
  | .record _ => .record
  | .lambda _ _ _ => .lambda
  | .call (.function _) _ => .callFunction
  | .call (.static _) _ => .callStatic
  | .call (.method _) _ => .callMethod
  | .call (.virtual _) _ => .callVirtual
  | .callLambda _ _ => .callLambda
  | .index _ _ => .index
  | .indices _ _ => .indices
  | .member .property _ _ => .property
  | .member .field _ _ => .field
  | .members .property _ _ => .properties
  | .members .field _ _ => .fields
  | .project .tuple _ _ => .projectTuple
  | .project .record _ _ => .projectRecord
  | .projectConcept _ _ => .projectConcept
  | .updateIndices _ _ => .updateIndices
  | .updateMembers .property _ _ => .updateProperties
  | .updateMembers .field _ _ => .updateFields
  | .extend .tuple _ _ => .extendTuple
  | .extend .record _ _ => .extendRecord
  | .extend .object _ _ => .extendObject
  | .unary _ _ => .unary
  | .binary (.arith _) _ _ => .arith
  | .binary (.equality _) _ _ => .equality
  | .binary (.order _) _ _ => .order
  | .copy _ => .copy
  | .truthy _ => .truthy

namespace Op

def kind : Op → Kind
  | .assign _ value => value.kind
  | .store _ _ => .store
  | .setReturn _ => .setReturn
  | .assert _ => .assert
  | .check _ => .check
  | .debug _ => .debug
  | .jump _ => .jump
  | .branch _ _ _ => .branch
  | .branchNone _ _ _ => .branchNone
  | .liveStart _ _ => .liveStart
  | .liveEnd _ => .liveEnd

def isTerminator (op : Op) : Bool := op.kind.isTerminator

def isLifetimeMarker (op : Op) : Bool := op.kind.isLifetimeMarker

def successors : Op → List Label
  | .jump target => [target]
  | .branch _ onTrue onFalse => [onTrue, onFalse]
  | .branchNone _ onNone onSome => [onNone, onSome]
  | _ => []

end Op

theorem value_category (value : Value) :
    value.kind.category = .value ∨ value.kind.category = .flow := by
  cases value with
  | var kind _ => cases kind <;> exact Or.inl rfl
  | call callee _ => cases callee <;> exact Or.inl rfl
  | member kind _ _ => cases kind <;> exact Or.inl rfl
  | members kind _ _ => cases kind <;> exact Or.inl rfl
  | project shape _ _ => cases shape <;> exact Or.inl rfl
  | updateMembers kind _ _ => cases kind <;> exact Or.inl rfl
  | extend kind _ _ => cases kind <;> exact Or.inl rfl
  | binary op _ _ => cases op <;> exact Or.inl rfl
  | copy _ => exact Or.inr rfl
  | truthy _ => exact Or.inr rfl
  | _ => exact Or.inl rfl

theorem value_not_terminator (value : Value) : value.kind.isTerminator = false := by
  rcases value_category value with category | category <;> simp [Kind.isTerminator, category]

theorem value_not_marker (value : Value) : value.kind.isLifetimeMarker = false := by
  rcases value_category value with category | category <;> simp [Kind.isLifetimeMarker, category]

theorem op_terminator_iff (op : Op) : op.isTerminator ↔ op.successors ≠ [] := by
  cases op with
  | assign _ value => simp [Op.isTerminator, Op.kind, Op.successors, value_not_terminator]
  | _ => simp [Op.isTerminator, Op.kind, Op.successors, Kind.isTerminator, Kind.category]

end MidIR
