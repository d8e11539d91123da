import MidIR.Op.Field

set_option autoImplicit false

namespace MidIR

def commaList (texts : List String) : String := ", ".intercalate texts

def operandList (operands : List Operand) : String := commaList (operands.map Operand.text)

def keyedText {κ : Type} (keyText : κ → String) (pair : κ × Operand) : String :=
  keyText pair.1 ++ "=" ++ pair.2.text

def spreadText (a : Operand) : String := "expand(" ++ a.text ++ ")"

def Element.text (element : Element) : String :=
  if element.expand then spreadText element.value else element.value.text

-- The receiver, which is the first argument, stands in front of the method.
def invokeText (method : String) : List Operand → String
  | [] => "->" ++ method ++ "()"
  | receiver :: args => receiver.text ++ "->" ++ method ++ "(" ++ operandList args ++ ")"

def callText : Callee → List Operand → String
  | .function key, args => key.text ++ "(" ++ operandList args ++ ")"
  | .static key, args => key.text ++ "(" ++ operandList args ++ ")"
  | .method key, args => invokeText ("::" ++ key.text ++ "::") args
  | .virtual key, args => invokeText key.text args

def Value.text : Value → String
  | .const literal => literal.text
  | .typedString literal type _ => literal ++ "#" ++ type.text
  | .global key => key.text
  | .constField key => key.text
  | .fieldDefault key => "default(" ++ key.text ++ ")"
  | .var _ name => name
  | .construct type args => type.text ++ "@(" ++ operandList args ++ ")"
  | .emptyCollection type => type.text ++ "@\x7b\x7d"
  | .collection type elements => type.text ++ "@\x7b" ++ operandList elements ++ "\x7d"
  | .spread type sources => type.text ++ "@\x7b" ++ commaList (sources.map spreadText) ++ "\x7d"
  | .mixed type elements => type.text ++ "@\x7b" ++ commaList (elements.map Element.text) ++ "\x7d"
  | .tuple elements => "@[" ++ operandList elements ++ "]"
  | .record fields => "@\x7b" ++ commaList (fields.map (keyedText id)) ++ "\x7d"
  | .lambda key _ _ => "fn(" ++ key.text ++ ")"
  | .call callee args => callText callee args
  | .callLambda closure args => closure.text ++ "(" ++ operandList args ++ ")"
  | .index base position => base.text ++ "[" ++ decimal position ++ "]"
  | .indices base positions => base.text ++ "@[" ++ commaList (positions.map decimal) ++ "]"
  | .member _ base name => base.text ++ "." ++ name
  | .members _ base names => base.text ++ "@\x7b" ++ commaList names ++ "\x7d"
  | .project _ base type => base.text ++ "#" ++ type.text
  | .projectConcept base types => base.text ++ "#" ++ "&".intercalate (types.map Key.text)
  | .updateIndices base updates =>
      base.text ++ "<~(" ++ commaList (updates.map (keyedText decimal)) ++ ")"
  | .updateMembers _ base updates =>
      base.text ++ "<~(" ++ commaList (updates.map (keyedText id)) ++ ")"
  | .extend _ base update => base.text ++ "<+(" ++ update.text ++ ")"
  | .unary op arg => op.symbol ++ arg.text
  | .binary op lhs rhs => lhs.text ++ op.symbol ++ rhs.text
  | .copy source => source.text
  | .truthy source => "truthy(" ++ source.text ++ ")"

def Op.text : Op → String
  | .assign target value => target.text ++ " = " ++ value.text
  | .store name source => name ++ " = " ++ source.text
  | .setReturn source => "_return_ = " ++ source.text
  | .assert cond => "assert " ++ cond.text
  | .check cond => "check " ++ cond.text
  | .debug (some value) => "_debug " ++ value.text
  | .debug none => "_debug break"
  | .jump target => "jump " ++ target.text
  | .branch cond onTrue onFalse => "cjump " ++ cond.text ++ " " ++ onTrue.text ++ " " ++ onFalse.text
  | .branchNone arg onNone onSome => "njump " ++ arg.text ++ " " ++ onNone.text ++ " " ++ onSome.text
  | .liveStart name _ => "v-begin " ++ name
  | .liveEnd name => "v-end " ++ name

end MidIR
