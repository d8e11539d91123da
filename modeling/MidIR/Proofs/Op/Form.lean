import MidIR.Op.Footprint

set_option autoImplicit false

namespace MidIR

def Value.OfKind (value : Value) : Kind → Prop
  | .loadConst => ∃ literal, value = .const literal
  | .loadTypedString => ∃ literal type stringType, value = .typedString literal type stringType
  | .loadGlobal => ∃ key, value = .global key
  | .loadConstField => ∃ key, value = .constField key
  | .loadFieldDefault => ∃ key, value = .fieldDefault key
  | .readCaptured => ∃ name, value = .var .captured name
  | .readParameter => ∃ name, value = .var .parameter name
  | .readLocal => ∃ name, value = .var .localVar name
  | .construct => ∃ type args, value = .construct type args
  | .emptyCollection => ∃ type, value = .emptyCollection type
  | .collection => ∃ type elements, value = .collection type elements
  | .spread => ∃ type sources, value = .spread type sources
  | .mixed => ∃ type elements, value = .mixed type elements
  | .tuple => ∃ elements, value = .tuple elements
  | .record => ∃ fields, value = .record fields
  | .lambda => ∃ key signature captured, value = .lambda key signature captured
  | .callFunction => ∃ key args, value = .call (.function key) args
  | .callStatic => ∃ key args, value = .call (.static key) args
  | .callMethod => ∃ key args, value = .call (.method key) args
  | .callVirtual => ∃ key args, value = .call (.virtual key) args
  | .callLambda => ∃ closure args, value = .callLambda closure args
  | .index => ∃ base position, value = .index base position
  | .indices => ∃ base positions, value = .indices base positions
  | .property => ∃ base name, value = .member .property base name
  | .field => ∃ base name, value = .member .field base name
  | .properties => ∃ base names, value = .members .property base names
  | .fields => ∃ base names, value = .members .field base names
  | .projectTuple => ∃ base type, value = .project .tuple base type
  | .projectRecord => ∃ base type, value = .project .record base type
  | .projectConcept => ∃ base types, value = .projectConcept base types
  | .updateIndices => ∃ base updates, value = .updateIndices base updates
  | .updateProperties => ∃ base updates, value = .updateMembers .property base updates
  | .updateFields => ∃ base updates, value = .updateMembers .field base updates
  | .extendTuple => ∃ base update, value = .extend .tuple base update
  | .extendRecord => ∃ base update, value = .extend .record base update
  | .extendObject => ∃ base update, value = .extend .object base update
  | .unary => ∃ op arg, value = .unary op arg
  | .arith => ∃ op lhs rhs, value = .binary (.arith op) lhs rhs
  | .equality => ∃ op lhs rhs, value = .binary (.equality op) lhs rhs
  | .order => ∃ op lhs rhs, value = .binary (.order op) lhs rhs
  | .copy => ∃ source, value = .copy source
  | .truthy => ∃ source, value = .truthy source
  | _ => False

-- The statements: what defines no register.
def Op.OfKind (op : Op) : Kind → Prop
  | .store => ∃ name source, op = .store name source
  | .setReturn => ∃ source, op = .setReturn source
  | .assert => ∃ cond, op = .assert cond
  | .check => ∃ cond, op = .check cond
  | .debug => ∃ value, op = .debug value
  | .jump => ∃ target, op = .jump target
  | .branch => ∃ cond onTrue onFalse, op = .branch cond onTrue onFalse
  | .branchNone => ∃ arg onNone onSome, op = .branchNone arg onNone onSome
  | .liveStart => ∃ name type, op = .liveStart name type
  | .liveEnd => ∃ name, op = .liveEnd name
  | _ => False

theorem value_of_kind (value : Value) : value.OfKind value.kind := by
  fun_cases Value.kind value <;> simp [Value.OfKind]

theorem statement_of_kind (op : Op) (statement : op.target? = none) : op.OfKind op.kind := by
  cases op with
  | assign target value => cases statement
  | _ => simp [Op.OfKind, Op.kind]

theorem value_kind_other (value : Value) (op : Op) (statement : op.target? = none) : value.kind ≠ op.kind := by
  intro same
  have form := value_of_kind value
  rw [same] at form
  cases op with
  | assign target other => cases statement
  | _ => exact form

end MidIR
