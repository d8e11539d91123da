set_option autoImplicit false

namespace MidIR

inductive KeyKind where
  | type
  | global
  | const
  | field
  | lambda
  | function
  | static
  | method
  | resolvedType
  | virtualMethod
deriving DecidableEq

structure Key (kind : KeyKind) where
  text : String
deriving DecidableEq, Hashable, Ord

abbrev TypeKey := Key .type
abbrev GlobalKey := Key .global
abbrev ConstKey := Key .const
abbrev FieldKey := Key .field
abbrev LambdaKey := Key .lambda
abbrev FunctionKey := Key .function
abbrev StaticKey := Key .static
abbrev MethodKey := Key .method
abbrev ResolvedTypeKey := Key .resolvedType
abbrev VirtualMethodKey := Key .virtualMethod

structure Label where
  text : String
deriving DecidableEq, Hashable, Ord

instance : EquivBEq Label := inferInstance

instance : LawfulHashable Label := inferInstance

def Label.entry : Label := ⟨"entry"⟩

def Label.exit : Label := ⟨"exit"⟩

end MidIR
