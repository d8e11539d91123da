set_option autoImplicit false

namespace MidIR

inductive Category where
  | value
  | flow
  | jump
  | lifetime
deriving DecidableEq

inductive Kind where
  | loadConst
  | loadTypedString
  | loadGlobal
  | loadConstField
  | loadFieldDefault
  | readCaptured
  | readParameter
  | readLocal
  | construct
  | emptyCollection
  | collection
  | spread
  | mixed
  | tuple
  | record
  | lambda
  | callFunction
  | callStatic
  | index
  | indices
  | property
  | properties
  | field
  | fields
  | projectTuple
  | projectRecord
  | projectConcept
  | updateIndices
  | updateProperties
  | updateFields
  | extendTuple
  | extendRecord
  | extendObject
  | callMethod
  | callVirtual
  | callLambda
  | unary
  | arith
  | equality
  | order
  | copy
  | truthy
  | store
  | setReturn
  | assert
  | check
  | debug
  | jump
  | branch
  | branchNone
  | liveStart
  | liveEnd
deriving DecidableEq, Ord

namespace Kind

def all : List Kind :=
  [loadConst, loadTypedString, loadGlobal, loadConstField, loadFieldDefault, readCaptured,
    readParameter, readLocal, construct, emptyCollection, collection, spread,
    mixed, tuple, record, lambda, callFunction, callStatic, index, indices,
    property, properties, field, fields, projectTuple, projectRecord,
    projectConcept, updateIndices, updateProperties, updateFields, extendTuple, extendRecord,
    extendObject, callMethod, callVirtual, callLambda, unary, arith, equality, order, copy,
    truthy, store, setReturn, assert, check, debug, jump, branch, branchNone, liveStart, liveEnd]

def name : Kind → String
  | loadConst => "LoadConst"
  | loadTypedString => "LoadConstTypedString"
  | loadGlobal => "AccessNamespaceConstant"
  | loadConstField => "AccessConstField"
  | loadFieldDefault => "LoadFieldDefaultValue"
  | readCaptured => "AccessCapturedVariable"
  | readParameter => "AccessArgVariable"
  | readLocal => "AccessLocalVariable"
  | construct => "ConstructorPrimary"
  | emptyCollection => "ConstructorPrimaryCollectionEmpty"
  | collection => "ConstructorPrimaryCollectionSingletons"
  | spread => "ConstructorPrimaryCollectionCopies"
  | mixed => "ConstructorPrimaryCollectionMixed"
  | tuple => "ConstructorTuple"
  | record => "ConstructorRecord"
  | lambda => "ConstructorLambda"
  | callFunction => "CallNamespaceFunction"
  | callStatic => "CallStaticFunction"
  | index => "AccessFromIndex"
  | indices => "ProjectFromIndices"
  | property => "AccessFromProperty"
  | properties => "ProjectFromProperties"
  | field => "AccessFromField"
  | fields => "ProjectFromFields"
  | projectTuple => "ProjectFromTypeTuple"
  | projectRecord => "ProjectFromTypeRecord"
  | projectConcept => "ProjectFromTypeConcept"
  | updateIndices => "ModifyWithIndices"
  | updateProperties => "ModifyWithProperties"
  | updateFields => "ModifyWithFields"
  | extendTuple => "StructuredExtendTuple"
  | extendRecord => "StructuredExtendRecord"
  | extendObject => "StructuredExtendObject"
  | callMethod => "InvokeKnownTarget"
  | callVirtual => "InvokeVirtualTarget"
  | callLambda => "CallLambda"
  | unary => "PrefixOp"
  | arith => "BinOp"
  | equality => "BinEq"
  | order => "BinCmp"
  | copy => "RegAssign"
  | truthy => "TruthyConvert"
  | store => "VarStore"
  | setReturn => "ReturnAssign"
  | assert => "Assert"
  | check => "Check"
  | debug => "Debug"
  | jump => "Jump"
  | branch => "JumpCond"
  | branchNone => "JumpNone"
  | liveStart => "VarLifetimeStart"
  | liveEnd => "VarLifetimeEnd"

def ofName? (text : String) : Option Kind := all.find? fun kind => kind.name == text

def category : Kind → Category
  | copy | truthy | store | setReturn | assert | check | debug => .flow
  | jump | branch | branchNone => .jump
  | liveStart | liveEnd => .lifetime
  | _ => .value

def isTerminator (kind : Kind) : Bool := kind.category = .jump

def isLifetimeMarker (kind : Kind) : Bool := kind.category = .lifetime

def isContract : Kind → Bool
  | assert | check => true
  | _ => false

end Kind

end MidIR
