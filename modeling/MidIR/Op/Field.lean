import MidIR.Op.Basic

set_option autoImplicit false

namespace MidIR

inductive Field where
  | operand (a : Operand)
  | slot (kind : VarKind) (name : String)
  | target (t : Temp)
  | label (l : Label)
  | literal (c : Constant)
  -- A key, a name that denotes no storage, a literal's text or an operator's symbol.
  | text (s : String)
  | position (n : Nat)
  | expand (b : Bool)
deriving DecidableEq

def Field.operand? : Field → Option Operand
  | .operand a => some a
  | .slot kind name => some (.var kind name)
  | .target t => some (.temp t)
  | _ => none

def keyedFields {κ : Type} (key : κ → Field) (pair : κ × Operand) : List Field :=
  [key pair.1, .operand pair.2]

def Element.fields (element : Element) : List Field :=
  [.expand element.expand, .operand element.value]

def Value.fields : Value → List Field
  | .const literal => [.literal literal]
  | .typedString literal type stringType => [.text literal, .text type.text, .text stringType.text]
  | .global key => [.text key.text]
  | .constField key => [.text key.text]
  | .fieldDefault key => [.text key.text]
  | .var kind name => [.slot kind name]
  | .construct type args => .text type.text :: args.map .operand
  | .emptyCollection type => [.text type.text]
  | .collection type elements => .text type.text :: elements.map .operand
  | .spread type sources => .text type.text :: sources.map .operand
  | .mixed type elements => .text type.text :: elements.flatMap Element.fields
  | .tuple elements => elements.map .operand
  | .record fields => fields.flatMap (keyedFields .text)
  | .lambda key signature captured =>
      .text key.text :: .text signature.text :: captured.map (.slot .captured)
  | .call callee args => .text callee.text :: args.map .operand
  | .callLambda closure args => .operand closure :: args.map .operand
  | .index base position => [.operand base, .position position]
  | .indices base positions => .operand base :: positions.map .position
  | .member _ base name => [.operand base, .text name]
  | .members _ base names => .operand base :: names.map .text
  | .project _ base type => [.operand base, .text type.text]
  | .projectConcept base types => .operand base :: types.map fun type => .text type.text
  | .updateIndices base updates => .operand base :: updates.flatMap (keyedFields .position)
  | .updateMembers _ base updates => .operand base :: updates.flatMap (keyedFields .text)
  | .extend _ base update => [.operand base, .operand update]
  | .unary op arg => [.text op.symbol, .operand arg]
  | .binary op lhs rhs => [.operand lhs, .text op.symbol, .operand rhs]
  | .copy source => [.operand source]
  | .truthy source => [.operand source]

namespace Op

-- In the order in which they are walked: what is read first, what is defined last.
def fields : Op → List Field
  | .assign target value => value.fields ++ [.target target]
  | .store name source => [.operand source, .slot .localVar name]
  | .setReturn source => [.operand source]
  | .assert cond => [.operand cond]
  | .check cond => [.operand cond]
  | .debug none => []
  | .debug (some value) => [.operand value]
  | .jump target => [.label target]
  | .branch cond onTrue onFalse => [.operand cond, .label onTrue, .label onFalse]
  | .branchNone arg onNone onSome => [.operand arg, .label onNone, .label onSome]
  | .liveStart name type => [.text name, .text type.text]
  | .liveEnd name => [.text name]

def operands (op : Op) : List Operand := op.fields.filterMap Field.operand?

end Op

end MidIR
