import Mathlib.Data.List.Basic
import MidIR.Op.Footprint
import MidIR.Op.Visit

set_option autoImplicit false

namespace MidIR

-- A piece of an instruction that holds one operand next to something else.
structure Holder (α : Type) where
  get : α → Operand
  put : α → Operand → α
  get_put : ∀ piece a, get (put piece a) = a
  put_get : ∀ piece, put piece (get piece) = piece
  put_put : ∀ piece a b, put (put piece a) b = put piece b

namespace Holder

def second {κ : Type} : Holder (κ × Operand) where
  get := Prod.snd
  put pair a := (pair.1, a)
  get_put _ _ := rfl
  put_get _ := rfl
  put_put _ _ _ := rfl

def element : Holder Element where
  get := Element.value
  put element a := ⟨element.expand, a⟩
  get_put _ _ := rfl
  put_get _ := rfl
  put_put _ _ _ := rfl

def refill {α : Type} (holder : Holder α) (pieces : List α) (args : List Operand) : List α :=
  pieces.zipWith holder.put args

end Holder

def Value.held : Value → List Operand
  | .var _ _ | .lambda _ _ _ => []
  | value => value.reads

-- The operands are put in from left to right; where they run out the old ones stay.
def Value.refill (args : List Operand) : Value → Value
  | .construct type _ => .construct type args
  | .collection type _ => .collection type args
  | .spread type _ => .spread type args
  | .mixed type elements => .mixed type (Holder.element.refill elements args)
  | .tuple _ => .tuple args
  | .record fields => .record (Holder.second.refill fields args)
  | .call callee _ => .call callee args
  | .callLambda closure _ => .callLambda (args.headD closure) args.tail
  | .index base position => .index (args.headD base) position
  | .indices base positions => .indices (args.headD base) positions
  | .member kind base name => .member kind (args.headD base) name
  | .members kind base names => .members kind (args.headD base) names
  | .project shape base type => .project shape (args.headD base) type
  | .projectConcept base types => .projectConcept (args.headD base) types
  | .updateIndices base updates =>
      .updateIndices (args.headD base) (Holder.second.refill updates args.tail)
  | .updateMembers kind base updates =>
      .updateMembers kind (args.headD base) (Holder.second.refill updates args.tail)
  | .extend kind base update => .extend kind (args.headD base) (args.tail.headD update)
  | .unary op arg => .unary op (args.headD arg)
  | .binary op lhs rhs => .binary op (args.headD lhs) (args.tail.headD rhs)
  | .copy source => .copy (args.headD source)
  | .truthy source => .truthy (args.headD source)
  | value => value

namespace Op

def held : Op → List Operand
  | .assign _ value => value.held
  | op => op.reads

def refill (args : List Operand) : Op → Op
  | .assign target value => .assign target (value.refill args)
  | .store name source => .store name (args.headD source)
  | .setReturn source => .setReturn (args.headD source)
  | .assert cond => .assert (args.headD cond)
  | .check cond => .check (args.headD cond)
  | .debug value => .debug (value.map args.headD)
  | .branch cond onTrue onFalse => .branch (args.headD cond) onTrue onFalse
  | .branchNone arg onNone onSome => .branchNone (args.headD arg) onNone onSome
  | op => op

end Op

section Holder

variable {α : Type} (holder : Holder α)

theorem refilled_get (pieces : List α) (args : List Operand) (length : args.length = (pieces.map holder.get).length) :
    (holder.refill pieces args).map holder.get = args := by
  induction pieces generalizing args with
  | nil => exact (List.length_eq_zero_iff.mp length).symm
  | cons piece rest ih =>
      obtain ⟨a, others, rfl⟩ := List.exists_cons_of_length_eq_add_one length
      exact congrArg₂ List.cons (holder.get_put piece a) (ih others (Nat.succ.inj length))

theorem refill_own (pieces : List α) : holder.refill pieces (pieces.map holder.get) = pieces := by
  induction pieces with
  | nil => rfl
  | cons piece rest ih => exact congrArg₂ List.cons (holder.put_get piece) ih

theorem refill_twice (pieces : List α) (args others : List Operand)
    (length : args.length = (pieces.map holder.get).length) :
    holder.refill (holder.refill pieces args) others = holder.refill pieces others := by
  induction pieces generalizing args others with
  | nil => rfl
  | cons piece rest ih =>
      obtain ⟨a, more, rfl⟩ := List.exists_cons_of_length_eq_add_one length
      cases others with
      | nil => rfl
      | cons b further => exact congrArg₂ List.cons (holder.put_put piece a b) (ih more further (Nat.succ.inj length))

theorem refill_visit {m : Type → Type} [Monad m] [LawfulMonad m] (visit : Operand → m Operand)
    (visitPiece : α → m α) (onePiece : ∀ piece, visitPiece piece = holder.put piece <$> visit (holder.get piece))
    (pieces : List α) :
    pieces.mapM visitPiece = holder.refill pieces <$> (pieces.map holder.get).mapM visit := by
  induction pieces with
  | nil => simp [Holder.refill]
  | cons piece rest ih => simp [Holder.refill, ih, onePiece]

end Holder

section Visit

variable {m : Type → Type} [Monad m] [LawfulMonad m] (visit : Operand → m Operand)

theorem second_visit {κ : Type} (pairs : List (κ × Operand)) :
    pairs.mapM (visitSecond visit) = Holder.second.refill pairs <$> (pairs.map Prod.snd).mapM visit :=
  refill_visit Holder.second visit _ (fun _ => (map_eq_pure_bind _ _).symm) pairs

theorem element_visit (elements : List Element) :
    elements.mapM (Element.visitReads visit) =
      Holder.element.refill elements <$> (elements.map Element.value).mapM visit :=
  refill_visit Holder.element visit _ (fun _ => (map_eq_pure_bind _ _).symm) elements

theorem value_visit (value : Value) :
    value.visitReads visit = (fun args => value.refill args) <$> value.held.mapM visit := by
  cases value <;> simp [Value.visitReads, Value.held, Value.reads, Value.refill, second_visit, element_visit]

theorem op_visit (op : Op) :
    op.visitReads visit = (fun args => op.refill args) <$> op.held.mapM visit := by
  cases op with
  | assign target value => simp [Op.visitReads, Op.held, Op.refill, value_visit]
  | debug value => cases value <;> simp [Op.visitReads, Op.held, Op.reads, Op.refill]
  | _ => simp [Op.visitReads, Op.held, Op.reads, Op.refill]

end Visit

theorem one_arg (args : List Operand) (first : Operand) (length : args.length = 1) : [args.headD first] = args := by
  obtain ⟨a, rfl⟩ := List.length_eq_one_iff.mp length
  rfl

theorem two_args (args : List Operand) (first second : Operand) (length : args.length = 2) :
    [args.headD first, args.tail.headD second] = args := by
  obtain ⟨a, b, rfl⟩ := List.length_eq_two.mp length
  rfl

theorem value_refill_held (value : Value) (args : List Operand) (length : args.length = value.held.length) :
    (value.refill args).held = args := by
  cases value with
  | construct | collection | spread | tuple | call => rfl
  | mixed type elements => exact refilled_get Holder.element elements args length
  | record fields => exact refilled_get Holder.second fields args length
  | callLambda closure rest =>
      obtain ⟨a, others, rfl⟩ := List.exists_cons_of_length_eq_add_one length
      rfl
  | updateIndices base updates | updateMembers kind base updates =>
      obtain ⟨a, others, rfl⟩ := List.exists_cons_of_length_eq_add_one length
      exact congrArg (a :: ·) (refilled_get Holder.second updates others (Nat.succ.inj length))
  | extend kind first second | binary op first second => exact two_args args first second length
  | index first | indices first | member kind first | members kind first | project shape first
  | projectConcept first | unary op first | copy first | truthy first => exact one_arg args first length
  | _ => exact (List.length_eq_zero_iff.mp length).symm

theorem value_refill_own (value : Value) : value.refill value.held = value := by
  cases value with
  | mixed type elements => exact congrArg (Value.mixed type) (refill_own Holder.element elements)
  | record fields => exact congrArg Value.record (refill_own Holder.second fields)
  | updateIndices base updates => exact congrArg (Value.updateIndices base) (refill_own Holder.second updates)
  | updateMembers kind base updates =>
      exact congrArg (Value.updateMembers kind base) (refill_own Holder.second updates)
  | _ => rfl

theorem value_refill_twice (value : Value) (args others : List Operand)
    (length : args.length = value.held.length) (also : others.length = value.held.length) :
    (value.refill args).refill others = value.refill others := by
  cases value with
  | mixed type elements =>
      exact congrArg (Value.mixed type) (refill_twice Holder.element elements args others length)
  | record fields =>
      exact congrArg Value.record (refill_twice Holder.second fields args others length)
  | callLambda closure rest =>
      obtain ⟨b, further, rfl⟩ := List.exists_cons_of_length_eq_add_one also
      rfl
  | updateIndices base updates =>
      obtain ⟨a, more, rfl⟩ := List.exists_cons_of_length_eq_add_one length
      obtain ⟨b, further, rfl⟩ := List.exists_cons_of_length_eq_add_one also
      exact congrArg (Value.updateIndices b)
        (refill_twice Holder.second updates more further (Nat.succ.inj length))
  | updateMembers kind base updates =>
      obtain ⟨a, more, rfl⟩ := List.exists_cons_of_length_eq_add_one length
      obtain ⟨b, further, rfl⟩ := List.exists_cons_of_length_eq_add_one also
      exact congrArg (Value.updateMembers kind b)
        (refill_twice Holder.second updates more further (Nat.succ.inj length))
  | extend kind first second | binary op first second =>
      obtain ⟨a, b, rfl⟩ := List.length_eq_two.mp also
      rfl
  | index first | indices first | member kind first | members kind first | project shape first
  | projectConcept first | unary op first | copy first | truthy first =>
      obtain ⟨b, rfl⟩ := List.length_eq_one_iff.mp also
      rfl
  | _ => rfl

theorem value_refill_kind (value : Value) (args : List Operand) : (value.refill args).kind = value.kind := by
  cases value with
  | call callee _ => cases callee <;> rfl
  | member kind _ _ => cases kind <;> rfl
  | members kind _ _ => cases kind <;> rfl
  | project shape _ _ => cases shape <;> rfl
  | updateMembers kind _ _ => cases kind <;> rfl
  | extend kind _ _ => cases kind <;> rfl
  | binary op _ _ => cases op <;> rfl
  | _ => rfl

theorem op_refill_held (op : Op) (args : List Operand) (length : args.length = op.held.length) :
    (op.refill args).held = args := by
  cases op with
  | assign target value => exact value_refill_held value args length
  | store name first | setReturn first | assert first | check first | branch first | branchNone first =>
      exact one_arg args first length
  | debug value =>
      cases value with
      | none => exact (List.length_eq_zero_iff.mp length).symm
      | some first => exact one_arg args first length
  | _ => exact (List.length_eq_zero_iff.mp length).symm

theorem op_refill_own (op : Op) : op.refill op.held = op := by
  cases op with
  | assign target value => exact congrArg (Op.assign target) (value_refill_own value)
  | debug value => cases value <;> rfl
  | _ => rfl

theorem op_refill_twice (op : Op) (args others : List Operand) (length : args.length = op.held.length)
    (also : others.length = op.held.length) : (op.refill args).refill others = op.refill others := by
  cases op with
  | assign target value => exact congrArg (Op.assign target) (value_refill_twice value args others length also)
  | store | setReturn | assert | check | branch | branchNone =>
      obtain ⟨b, rfl⟩ := List.length_eq_one_iff.mp also
      rfl
  | debug value =>
      cases value with
      | none => rfl
      | some first =>
          obtain ⟨b, rfl⟩ := List.length_eq_one_iff.mp also
          rfl
  | _ => rfl

theorem op_refill_kind (op : Op) (args : List Operand) : (op.refill args).kind = op.kind := by
  cases op with
  | assign target value => exact value_refill_kind value args
  | _ => rfl

theorem op_refill_target (op : Op) (args : List Operand) : (op.refill args).target? = op.target? := by
  cases op <;> rfl

theorem op_refill_writes (op : Op) (args : List Operand) : (op.refill args).writes = op.writes := by
  cases op <;> rfl

theorem op_refill_successors (op : Op) (args : List Operand) : (op.refill args).successors = op.successors := by
  cases op <;> rfl

end MidIR
