import MidIR.Op.Field
import MidIR.Op.Footprint

set_option autoImplicit false

namespace MidIR

def fieldOperands (fields : List Field) : List Operand := fields.filterMap Field.operand?

theorem field_operands_cons (field : Field) (rest : List Field) :
    fieldOperands (field :: rest) = field.operand?.toList ++ fieldOperands rest := by
  cases shown : field.operand? <;> simp [fieldOperands, shown]

theorem field_operands_append (front back : List Field) :
    fieldOperands (front ++ back) = fieldOperands front ++ fieldOperands back :=
  List.filterMap_append

theorem plain_operands (args : List Operand) : fieldOperands (args.map .operand) = args := by
  induction args with
  | nil => rfl
  | cons a rest ih =>
      rw [List.map_cons, field_operands_cons, ih]
      rfl

theorem slot_operands (kind : VarKind) (names : List String) :
    fieldOperands (names.map (.slot kind)) = names.map (.var kind) := by
  induction names with
  | nil => rfl
  | cons name rest ih =>
      rw [List.map_cons, field_operands_cons, ih]
      rfl

theorem silent_operands {α : Type} (shown : α → Field) (silent : ∀ a, (shown a).operand? = none)
    (items : List α) : fieldOperands (items.map shown) = [] := by
  induction items with
  | nil => rfl
  | cons a rest ih =>
      rw [List.map_cons, field_operands_cons, ih, silent]
      rfl

theorem element_operands (elements : List Element) :
    fieldOperands (elements.flatMap Element.fields) = elements.map Element.value := by
  induction elements with
  | nil => rfl
  | cons element rest ih =>
      rw [List.flatMap_cons, field_operands_append, ih]
      rfl

theorem keyed_operands {κ : Type} (key : κ → Field) (silent : ∀ k, (key k).operand? = none)
    (pairs : List (κ × Operand)) :
    fieldOperands (pairs.flatMap (keyedFields key)) = pairs.map Prod.snd := by
  induction pairs with
  | nil => rfl
  | cons pair rest ih =>
      rw [List.flatMap_cons, field_operands_append, ih, keyedFields, field_operands_cons, silent]
      rfl

theorem value_operands (value : Value) : fieldOperands value.fields = value.reads := by
  cases value with
  | construct type args => exact plain_operands args
  | collection type elements => exact plain_operands elements
  | spread type sources => exact plain_operands sources
  | mixed type elements => exact element_operands elements
  | tuple elements => exact plain_operands elements
  | record fields => exact keyed_operands .text (fun _ => rfl) fields
  | lambda key signature captured => exact slot_operands .captured captured
  | call callee args => exact plain_operands args
  | callLambda closure args => exact congrArg (closure :: ·) (plain_operands args)
  | indices base positions => exact congrArg (base :: ·) (silent_operands .position (fun _ => rfl) positions)
  | members kind base names => exact congrArg (base :: ·) (silent_operands .text (fun _ => rfl) names)
  | projectConcept base types => exact congrArg (base :: ·) (silent_operands _ (fun _ => rfl) types)
  | updateIndices base updates => exact congrArg (base :: ·) (keyed_operands .position (fun _ => rfl) updates)
  | updateMembers kind base updates => exact congrArg (base :: ·) (keyed_operands .text (fun _ => rfl) updates)
  | _ => rfl

theorem assign_operands (target : Temp) (value : Value) :
    (Op.assign target value).operands = value.reads ++ [.temp target] := by
  have walked := field_operands_append value.fields [.target target]
  rw [value_operands] at walked
  exact walked

theorem operands_are_footprint (op : Op) : op.operands = op.reads ++ op.writes := by
  cases op with
  | assign target value => exact assign_operands target value
  | debug value => cases value <;> rfl
  | _ => rfl

end MidIR
