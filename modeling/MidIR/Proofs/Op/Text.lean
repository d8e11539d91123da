import MidIR.Proofs.Op.Shown

set_option autoImplicit false

namespace MidIR

theorem binary_symbol_mark (op : BinaryOp) : op.symbol.toList.head?.map Char.isDigit = some false := by
  rcases op with op | op | op <;> cases op <;> decide

-- By cases on the value: the other has the same form already, and what their texts share is cut off
-- at both ends.
theorem value_text_told (value : Value) (args : List Operand) (tempsOwn : OnlyTemps value.held)
    (tempsArgs : OnlyTemps args) (fits : (value.refill args).held = args)
    (details : (value.refill args).details = value.details) (same : value.text = (value.refill args).text) :
    value.refill args = value := by
  cases value with
  | construct type own | collection type own | tuple own =>
      have lists : operandList own = operandList args := by simpa [Value.text, Value.refill] using same
      rw [operand_list_told own args tempsOwn tempsArgs lists]
      rfl
  | spread type own =>
      have lists : commaList (own.map spreadText) = commaList (args.map spreadText) := by
        simpa [Value.text, Value.refill] using same
      rw [spread_list_told own args tempsOwn tempsArgs lists]
      rfl
  | mixed type elements =>
      have flags : ((Holder.element.refill elements args).map fun element => Field.expand element.expand) =
          elements.map fun element => .expand element.expand := by
        simpa [Value.details, Value.fields, Value.refill] using details
      have lists : commaList (elements.map Element.text) =
          commaList ((Holder.element.refill elements args).map Element.text) := by
        simpa [Value.text, Value.refill] using same
      exact congrArg (Value.mixed type) (element_list_told elements args fits flags tempsOwn tempsArgs lists).symm
  | record fields =>
      have keys : ((Holder.second.refill fields args).map fun pair => Field.text pair.1) =
          fields.map fun pair => .text pair.1 := by
        simpa [Value.details, Value.fields, Value.refill] using details
      have lists : commaList (fields.map (keyedText id)) =
          commaList ((Holder.second.refill fields args).map (keyedText id)) := by
        simpa [Value.text, Value.refill] using same
      exact congrArg Value.record
        (keyed_list_told id .text (by simp) fields args fits keys tempsOwn tempsArgs lists).symm
  | call callee own =>
      rw [call_told own args tempsOwn tempsArgs callee same]
      rfl
  | callLambda closure own =>
      obtain ⟨b, rest, rfl⟩ : ∃ b rest, args = b :: rest := ⟨_, _, fits.symm⟩
      obtain ⟨rfl, rfl⟩ := call_lambda_told closure b own rest tempsOwn tempsArgs same
      rfl
  | updateIndices base updates =>
      obtain ⟨b, rest, rfl⟩ : ∃ b rest, args = b :: rest := ⟨_, _, fits.symm⟩
      have positions : ((Holder.second.refill updates rest).map fun pair => Field.position pair.1) =
          updates.map fun pair => .position pair.1 := by
        simpa [Value.details, Value.fields, Value.refill] using details
      obtain ⟨bases, lists⟩ := update_told base b decimal .position (by simp) updates rest
        (List.cons.inj fits).2 positions tempsOwn tempsArgs same
      exact congrArg₂ Value.updateIndices bases lists
  | updateMembers kind base updates =>
      obtain ⟨b, rest, rfl⟩ : ∃ b rest, args = b :: rest := ⟨_, _, fits.symm⟩
      have names : ((Holder.second.refill updates rest).map fun pair => Field.text pair.1) =
          updates.map fun pair => .text pair.1 := by
        simpa [Value.details, Value.fields, Value.refill] using details
      obtain ⟨bases, lists⟩ := update_told base b id .text (by simp) updates rest
        (List.cons.inj fits).2 names tempsOwn tempsArgs same
      exact congrArg₂ (Value.updateMembers kind) bases lists
  | extend kind first second =>
      obtain ⟨b, c, rfl⟩ : ∃ b c, args = [b, c] := ⟨_, _, fits.symm⟩
      have texts : first.text ++ "<+(" ++ second.text = b.text ++ "<+(" ++ c.text :=
        (String.append_left_inj ")").mp same
      obtain ⟨rfl, rfl⟩ := two_told first b second c tempsOwn tempsArgs "<+(" (by decide) texts
      rfl
  | binary op first second =>
      obtain ⟨b, c, rfl⟩ : ∃ b c, args = [b, c] := ⟨_, _, fits.symm⟩
      obtain ⟨rfl, rfl⟩ := two_told first b second c tempsOwn tempsArgs op.symbol (binary_symbol_mark op) same
      rfl
  | index first | indices first | member kind first | members kind first | project shape first
  | projectConcept first | unary op first | copy first | truthy first =>
      obtain ⟨b, rfl⟩ : ∃ b, args = [b] := ⟨_, fits.symm⟩
      have texts : first.text = b.text := by simpa [Value.text, Value.refill] using same
      rw [one_told first b tempsOwn tempsArgs texts]
      rfl
  | _ => rfl

theorem value_text_injective (v w : Value) (kinds : v.kind = w.kind) (details : v.details = w.details)
    (tempsV : OnlyTemps v.held) (tempsW : OnlyTemps w.held) (same : v.text = w.text) : v = w := by
  have alike := value_refill_alike v w kinds details
  have fits : (v.refill w.held).held = w.held := congrArg Value.held alike
  have kept : (v.refill w.held).details = v.details := (congrArg Value.details alike).trans details.symm
  have texts : v.text = (v.refill w.held).text := same.trans (congrArg Value.text alike.symm)
  exact (value_text_told v w.held tempsV tempsW fits kept texts).symm.trans alike

theorem statement_text_told (op : Op) (args : List Operand) (statement : op.target? = none)
    (tempsOwn : OnlyTemps op.held) (tempsArgs : OnlyTemps args) (fits : (op.refill args).held = args)
    (same : op.text = (op.refill args).text) : op.refill args = op := by
  cases op with
  | assign target value => cases statement
  | store name first | setReturn first | assert first | check first | branch first | branchNone first =>
      obtain ⟨b, rfl⟩ : ∃ b, args = [b] := ⟨_, fits.symm⟩
      have texts : first.text = b.text := by simpa [Op.text, Op.refill] using same
      rw [one_told first b tempsOwn tempsArgs texts]
      rfl
  | debug value =>
      cases value with
      | none => rfl
      | some first =>
          obtain ⟨b, rfl⟩ : ∃ b, args = [b] := ⟨_, fits.symm⟩
          have texts : first.text = b.text := by simpa [Op.text, Op.refill] using same
          rw [one_told first b tempsOwn tempsArgs texts]
          rfl
  | jump target | liveStart name type | liveEnd name => rfl

-- Only here do kind and details leave open how many operands a statement holds.
theorem debug_shown (a : Operand) (temp : a.IsTemp) : (Op.debug none).text ≠ (Op.debug (some a)).text := by
  obtain ⟨t, rfl⟩ := temp
  intro same
  have shown := congrArg (fun text => text.toList[7]?) same
  simp [Op.text, Operand.text, Register.text, Temp.text] at shown

theorem statement_alike (a b : Op) (statementA : a.target? = none) (statementB : b.target? = none)
    (kinds : a.kind = b.kind) (details : a.details = b.details) :
    a.refill b.held = b ∨ (∃ value, a = .debug none ∧ b = .debug (some value)) ∨
      ∃ value, a = .debug (some value) ∧ b = .debug none := by
  have form := statement_of_kind b statementB
  rw [← kinds] at form
  simp only [Op.details] at details
  cases a with
  | assign target value => cases statementA
  | store name source =>
      obtain ⟨other, operand, rfl⟩ := form
      exact Or.inl (by simpa [Op.refill, Op.held, Op.reads, Op.fields] using details)
  | setReturn source | assert cond | check cond =>
      obtain ⟨operand, rfl⟩ := form
      exact Or.inl rfl
  | debug value =>
      obtain ⟨other, rfl⟩ := form
      cases value <;> cases other <;> simp [Op.refill, Op.held, Op.reads]
  | branch cond onTrue onFalse | branchNone arg onNone onSome =>
      obtain ⟨operand, first, second, rfl⟩ := form
      exact Or.inl (by simpa [Op.refill, Op.held, Op.reads, Op.fields] using details)
  | jump target | liveEnd name =>
      obtain ⟨other, rfl⟩ := form
      exact Or.inl (by simpa [Op.refill, Op.fields] using details)
  | liveStart name type =>
      obtain ⟨other, otherType, rfl⟩ := form
      exact Or.inl (by simpa [Op.refill, Op.fields] using details)

theorem statement_text_injective (a b : Op) (statementA : a.target? = none) (statementB : b.target? = none)
    (kinds : a.kind = b.kind) (details : a.details = b.details)
    (tempsA : OnlyTemps a.held) (tempsB : OnlyTemps b.held) (same : a.text = b.text) : a = b := by
  rcases statement_alike a b statementA statementB kinds details with
    alike | ⟨value, rfl, rfl⟩ | ⟨value, rfl, rfl⟩
  · have fits : (a.refill b.held).held = b.held := congrArg Op.held alike
    have texts : a.text = (a.refill b.held).text := same.trans (congrArg Op.text alike.symm)
    exact (statement_text_told a b.held statementA tempsA tempsB fits texts).symm.trans alike
  · exact absurd same (debug_shown value (tempsB value List.mem_cons_self))
  · exact absurd same.symm (debug_shown value (tempsA value List.mem_cons_self))

theorem op_text_told (a b : Op) (kinds : a.kind = b.kind) (details : a.details = b.details)
    (tempsA : OnlyTemps a.held) (tempsB : OnlyTemps b.held) (same : a.text = b.text) : a = b := by
  cases a with
  | assign t v =>
      cases b with
      | assign u w =>
          obtain ⟨rfl, texts⟩ := told_before Temp.text t u (temp_told t u) " = " v.text w.text (by decide) same
          have inner : v.details = w.details := by simpa using details
          exact congrArg (Op.assign t) (value_text_injective v w kinds inner tempsA tempsB texts)
      | _ => exact absurd kinds (value_kind_other v _ rfl)
  | _ =>
      cases b with
      | assign u w => exact absurd kinds.symm (value_kind_other w _ rfl)
      | _ => exact statement_text_injective _ _ rfl rfl kinds details tempsA tempsB same

end MidIR
