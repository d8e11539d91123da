import MidIR.Op.Field
import MidIR.Proofs.Op.Form
import MidIR.Proofs.Op.Held

set_option autoImplicit false

namespace MidIR

@[simp] def Field.isDetail : Field → Bool
  | .operand _ | .target _ => false
  | .slot _ _ | .label _ | .literal _ | .text _ | .position _ | .expand _ => true

def fieldDetails (fields : List Field) : List Field := fields.filter Field.isDetail

-- All that is said besides the operands that are held and the register that is defined.
def Value.details (value : Value) : List Field := fieldDetails value.fields

def Op.details (op : Op) : List Field := fieldDetails op.fields

@[simp] theorem field_details_nil : fieldDetails [] = [] := rfl

@[simp] theorem field_details_cons (field : Field) (rest : List Field) :
    fieldDetails (field :: rest) = if field.isDetail then field :: fieldDetails rest else fieldDetails rest :=
  List.filter_cons

@[simp] theorem field_details_append (front back : List Field) :
    fieldDetails (front ++ back) = fieldDetails front ++ fieldDetails back :=
  List.filter_append front back

@[simp] theorem field_details_map {α : Type} (shown : α → Field) (items : List α) :
    fieldDetails (items.map shown) = (items.filter fun a => (shown a).isDetail).map shown :=
  List.filter_map

@[simp] theorem element_details (elements : List Element) :
    fieldDetails (elements.flatMap Element.fields) = elements.map fun element => .expand element.expand := by
  induction elements with
  | nil => rfl
  | cons element rest ih => simp [Element.fields, ih]

theorem keyed_details {κ : Type} (key : κ → Field) (detail : ∀ k, (key k).isDetail = true)
    (pairs : List (κ × Operand)) :
    fieldDetails (pairs.flatMap (keyedFields key)) = pairs.map fun pair => key pair.1 := by
  induction pairs with
  | nil => rfl
  | cons pair rest ih =>
      rw [List.flatMap_cons, field_details_append, ih, keyedFields, field_details_cons, detail pair.1]
      rfl

@[simp] theorem named_details (pairs : List (String × Operand)) :
    fieldDetails (pairs.flatMap (keyedFields .text)) = pairs.map fun pair => .text pair.1 :=
  keyed_details .text (fun _ => rfl) pairs

@[simp] theorem numbered_details (pairs : List (Nat × Operand)) :
    fieldDetails (pairs.flatMap (keyedFields .position)) = pairs.map fun pair => .position pair.1 :=
  keyed_details .position (fun _ => rfl) pairs

@[simp] theorem assign_details (target : Temp) (value : Value) : (Op.assign target value).details = value.details := by
  simp [Op.details, Op.fields, Value.details]

section Pieces

variable {α β : Type} (holder : Holder α) (keep : α → β)

theorem refilled_kept (kept : ∀ piece a, keep (holder.put piece a) = keep piece) (pieces : List α)
    (args : List Operand) (length : args.length = (pieces.map holder.get).length) :
    (holder.refill pieces args).map keep = pieces.map keep := by
  induction pieces generalizing args with
  | nil => rfl
  | cons piece rest ih =>
      obtain ⟨a, others, rfl⟩ := List.exists_cons_of_length_eq_add_one length
      exact congrArg₂ List.cons (kept piece a) (ih others (Nat.succ.inj length))

theorem refill_alike
    (settled : ∀ piece other, keep piece = keep other → holder.put piece (holder.get other) = other)
    (pieces others : List α) (alike : pieces.map keep = others.map keep) :
    holder.refill pieces (others.map holder.get) = others := by
  induction pieces generalizing others with
  | nil =>
      rw [List.map_eq_nil_iff.mp alike.symm]
      rfl
  | cons piece rest ih =>
      obtain ⟨other, more, rfl, first, later⟩ := List.map_eq_cons_iff.mp alike.symm
      exact congrArg₂ List.cons (settled piece other first.symm) (ih more later.symm)

end Pieces

theorem refilled_flags (elements : List Element) (args : List Operand)
    (length : args.length = (elements.map Element.value).length) :
    ((Holder.element.refill elements args).map fun element => Field.expand element.expand) =
      elements.map fun element => .expand element.expand :=
  refilled_kept Holder.element _ (fun _ _ => rfl) elements args length

theorem refilled_keys {κ : Type} (key : κ → Field) (pairs : List (κ × Operand)) (args : List Operand)
    (length : args.length = (pairs.map Prod.snd).length) :
    ((Holder.second.refill pairs args).map fun pair => key pair.1) = pairs.map fun pair => key pair.1 :=
  refilled_kept Holder.second _ (fun _ _ => rfl) pairs args length

theorem elements_alike (elements others : List Element)
    (alike : (elements.map fun element => Field.expand element.expand) =
      others.map fun element => .expand element.expand) :
    Holder.element.refill elements (others.map Element.value) = others := by
  refine refill_alike Holder.element _ (fun element other same => ?_) elements others alike
  cases element
  cases other
  cases same
  rfl

theorem pairs_alike {κ : Type} (key : κ → Field) (injective : ∀ k l, key k = key l → k = l)
    (pairs others : List (κ × Operand))
    (alike : (pairs.map fun pair => key pair.1) = others.map fun pair => key pair.1) :
    Holder.second.refill pairs (others.map Prod.snd) = others :=
  refill_alike Holder.second _ (fun _ _ same => Prod.ext (injective _ _ same) rfl) pairs others alike

theorem value_refill_details (value : Value) (args : List Operand) (length : args.length = value.held.length) :
    (value.refill args).details = value.details := by
  cases value with
  | mixed type elements => simp [Value.details, Value.fields, Value.refill, refilled_flags elements args length]
  | record fields => simp [Value.details, Value.fields, Value.refill, refilled_keys Field.text fields args length]
  | callLambda closure rest =>
      obtain ⟨a, others, rfl⟩ := List.exists_cons_of_length_eq_add_one length
      simp [Value.details, Value.fields, Value.refill]
  | updateIndices base updates =>
      obtain ⟨a, others, rfl⟩ := List.exists_cons_of_length_eq_add_one length
      have positions := refilled_keys Field.position updates others (Nat.succ.inj length)
      simp [Value.details, Value.fields, Value.refill, positions]
  | updateMembers kind base updates =>
      obtain ⟨a, others, rfl⟩ := List.exists_cons_of_length_eq_add_one length
      have names := refilled_keys Field.text updates others (Nat.succ.inj length)
      simp [Value.details, Value.fields, Value.refill, names]
  | _ => simp [Value.details, Value.fields, Value.refill]

theorem op_refill_details (op : Op) (args : List Operand) (length : args.length = op.held.length) :
    (op.refill args).details = op.details := by
  cases op with
  | assign target value => simpa [Op.refill] using value_refill_details value args length
  | debug value => cases value <;> rfl
  | _ => rfl

@[simp] theorem key_text_inj {kind : KeyKind} (a b : Key kind) : a.text = b.text ↔ a = b := by
  cases a
  cases b
  simp

@[simp] theorem unary_symbol_inj (a b : UnaryOp) : a.symbol = b.symbol ↔ a = b :=
  ⟨unary_symbol_injective a b, congrArg UnaryOp.symbol⟩

@[simp] theorem binary_symbol_inj (a b : BinaryOp) : a.symbol = b.symbol ↔ a = b :=
  ⟨binary_symbol_injective a b, congrArg BinaryOp.symbol⟩

-- By the form of the value: the other has the same one, and what the details leave open is what it holds.
theorem value_refill_alike (v w : Value) (kinds : v.kind = w.kind) (details : v.details = w.details) :
    v.refill w.held = w := by
  have form := value_of_kind w
  rw [← kinds] at form
  simp only [Value.details] at details
  cases v with
  | const _ | global _ | constField _ | fieldDefault _ | emptyCollection _ =>
      obtain ⟨first, rfl⟩ := form
      simpa [Value.refill, Value.fields] using details
  | tuple _ | copy _ | truthy _ =>
      obtain ⟨held, rfl⟩ := form
      rfl
  | construct _ _ | collection _ _ | spread _ _ | index _ _ | indices _ _ | projectConcept _ _ | unary _ _ =>
      obtain ⟨first, second, rfl⟩ := form
      simpa [Value.refill, Value.held, Value.reads, Value.fields, List.map_inj_right] using details
  | typedString _ _ _ | lambda _ _ _ =>
      obtain ⟨first, second, third, rfl⟩ := form
      simpa [Value.refill, Value.fields, List.map_inj_right] using details
  | callLambda _ _ =>
      obtain ⟨closure, args, rfl⟩ := form
      rfl
  | var kind _ =>
      cases kind with
      | captured | parameter | localVar =>
          obtain ⟨name, rfl⟩ := form
          simpa [Value.refill, Value.fields] using details
  | call callee _ =>
      cases callee with
      | function _ | static _ | method _ | virtual _ =>
          obtain ⟨key, args, rfl⟩ := form
          simpa [Value.refill, Value.held, Value.reads, Value.fields, Callee.text] using details
  | member kind _ _ | members kind _ _ =>
      cases kind with
      | property | field =>
          obtain ⟨base, named, rfl⟩ := form
          simpa [Value.refill, Value.held, Value.reads, Value.fields, List.map_inj_right] using details
  | project shape _ _ =>
      cases shape with
      | tuple | record =>
          obtain ⟨base, type, rfl⟩ := form
          simpa [Value.refill, Value.held, Value.reads, Value.fields] using details
  | extend kind _ _ =>
      cases kind with
      | tuple | record | object =>
          obtain ⟨base, update, rfl⟩ := form
          rfl
  | binary op _ _ =>
      cases op with
      | arith _ | equality _ | order _ =>
          obtain ⟨symbol, lhs, rhs, rfl⟩ := form
          simpa [Value.refill, Value.held, Value.reads, Value.fields] using details
  | mixed type elements =>
      obtain ⟨other, others, rfl⟩ := form
      have same : type = other ∧ (elements.map fun element => Field.expand element.expand) =
          others.map fun element => .expand element.expand := by
        simpa [Value.fields] using details
      exact congrArg₂ Value.mixed same.1 (elements_alike elements others same.2)
  | record fields =>
      obtain ⟨others, rfl⟩ := form
      have keys : (fields.map fun pair => Field.text pair.1) = others.map fun pair => .text pair.1 := by
        simpa [Value.fields] using details
      exact congrArg Value.record (pairs_alike Field.text (by simp) fields others keys)
  | updateIndices _ updates =>
      obtain ⟨base, others, rfl⟩ := form
      have positions : (updates.map fun pair => Field.position pair.1) = others.map fun pair => .position pair.1 := by
        simpa [Value.fields] using details
      exact congrArg (Value.updateIndices base) (pairs_alike Field.position (by simp) updates others positions)
  | updateMembers kind _ updates =>
      cases kind with
      | property | field =>
          obtain ⟨base, others, rfl⟩ := form
          have names : (updates.map fun pair => Field.text pair.1) = others.map fun pair => .text pair.1 := by
            simpa [Value.fields] using details
          exact congrArg (Value.updateMembers _ base) (pairs_alike Field.text (by simp) updates others names)

end MidIR
