import MidIR.Proofs.Op.Details
import MidIR.Proofs.Text.Delimited

set_option autoImplicit false

namespace MidIR

def Operand.IsTemp (a : Operand) : Prop := ∃ t, a = .temp t

def OnlyTemps (args : List Operand) : Prop := ∀ a ∈ args, a.IsTemp

theorem temp_shown (a : Operand) (temp : a.IsTemp) : a.text ≠ "" := by
  obtain ⟨t, rfl⟩ := temp
  simp [Operand.text, Register.text, Temp.text]

theorem operand_told (a b : Operand) (tempA : a.IsTemp) (tempB : b.IsTemp) : Told Operand.text a b := by
  obtain ⟨t, rfl⟩ := tempA
  obtain ⟨u, rfl⟩ := tempB
  intro x y endsX endsY same
  obtain ⟨temps, rest⟩ := temp_told t u x y endsX endsY same
  exact ⟨congrArg Operand.temp temps, rest⟩

theorem one_told (a b : Operand) (tempA : OnlyTemps [a]) (tempB : OnlyTemps [b]) (same : a.text = b.text) : a = b :=
  told_alone Operand.text a b (operand_told a b (tempA a List.mem_cons_self) (tempB b List.mem_cons_self)) same

theorem spread_told (a b : Operand) (told : Told Operand.text a b) : Told spreadText a b := by
  intro x y _ _ same
  have inner : a.text.toList ++ ')' :: x = b.text.toList ++ ')' :: y := by simpa [spreadText] using same
  obtain ⟨equal, rest⟩ := told _ _ (no_digit_cons ')' x rfl) (no_digit_cons ')' y rfl) inner
  exact ⟨equal, (List.cons.inj rest).2⟩

theorem element_told (a b : Element) (flags : a.expand = b.expand) (told : Told Operand.text a.value b.value) :
    Told Element.text a b := by
  obtain ⟨expand, value⟩ := a
  obtain ⟨also, other⟩ := b
  obtain rfl : expand = also := flags
  intro x y endsX endsY same
  cases expand with
  | true =>
      obtain ⟨equal, rest⟩ := spread_told value other told x y endsX endsY same
      exact ⟨congrArg (Element.mk true) equal, rest⟩
  | false =>
      obtain ⟨equal, rest⟩ := told x y endsX endsY same
      exact ⟨congrArg (Element.mk false) equal, rest⟩

theorem keyed_told {κ : Type} (keyText : κ → String) (a b : κ × Operand) (keys : a.1 = b.1)
    (told : Told Operand.text a.2 b.2) : Told (keyedText keyText) a b := by
  intro x y endsX endsY same
  have inner : a.2.text.toList ++ x = b.2.text.toList ++ y := by simpa [keyedText, keys] using same
  obtain ⟨equal, rest⟩ := told x y endsX endsY inner
  exact ⟨Prod.ext keys equal, rest⟩

theorem zip_kept {α β : Type} (keep : α → β) (as bs : List α) (same : as.map keep = bs.map keep) (a b : α)
    (member : (a, b) ∈ as.zip bs) : keep a = keep b := by
  induction as generalizing bs with
  | nil => cases member
  | cons first rest ih =>
      obtain ⟨other, more, rfl, equal, later⟩ := List.map_eq_cons_iff.mp same.symm
      rcases List.mem_cons.mp member with here | behind
      · obtain ⟨rfl, rfl⟩ := Prod.mk.inj here
        exact equal.symm
      · exact ih more later.symm behind

section Lists

theorem operand_list_told (own args : List Operand) (tempsOwn : OnlyTemps own) (tempsArgs : OnlyTemps args)
    (same : operandList own = operandList args) : own = args := by
  refine comma_list_told Operand.text own args (fun a b member => ?_) (fun a member => temp_shown a (tempsOwn a member))
    (fun b member => temp_shown b (tempsArgs b member)) same
  obtain ⟨left, right⟩ := List.of_mem_zip member
  exact operand_told a b (tempsOwn a left) (tempsArgs b right)

theorem spread_list_told (own args : List Operand) (tempsOwn : OnlyTemps own) (tempsArgs : OnlyTemps args)
    (same : commaList (own.map spreadText) = commaList (args.map spreadText)) : own = args := by
  refine comma_list_told spreadText own args (fun a b member => ?_) (by simp [spreadText]) (by simp [spreadText]) same
  obtain ⟨left, right⟩ := List.of_mem_zip member
  exact spread_told a b (operand_told a b (tempsOwn a left) (tempsArgs b right))

theorem element_list_told (elements : List Element) (args : List Operand)
    (fits : (Holder.element.refill elements args).map Element.value = args)
    (flags : ((Holder.element.refill elements args).map fun element => Field.expand element.expand) =
      elements.map fun element => .expand element.expand)
    (tempsOwn : OnlyTemps (elements.map Element.value)) (tempsArgs : OnlyTemps args)
    (same : commaList (elements.map Element.text) =
      commaList ((Holder.element.refill elements args).map Element.text)) :
    elements = Holder.element.refill elements args := by
  have shown : ∀ element : Element, element.value.IsTemp → element.text ≠ "" := by
    intro element temp
    unfold Element.text
    split
    · simp [spreadText]
    · exact temp_shown element.value temp
  have tempOwn : ∀ a ∈ elements, a.value.IsTemp := fun a member => tempsOwn _ (List.mem_map_of_mem member)
  have tempOther : ∀ b ∈ Holder.element.refill elements args, b.value.IsTemp := fun b member =>
    tempsArgs _ (fits ▸ List.mem_map_of_mem member)
  refine comma_list_told Element.text elements _ (fun a b member => ?_) (fun a member => shown a (tempOwn a member))
    (fun b member => shown b (tempOther b member)) same
  obtain ⟨left, right⟩ := List.of_mem_zip member
  exact element_told a b (Field.expand.inj (zip_kept _ elements _ flags.symm a b member))
    (operand_told _ _ (tempOwn a left) (tempOther b right))

theorem keyed_list_told {κ : Type} (keyText : κ → String) (key : κ → Field)
    (injective : ∀ k l, key k = key l → k = l) (pairs : List (κ × Operand)) (args : List Operand)
    (fits : (Holder.second.refill pairs args).map Prod.snd = args)
    (keys : ((Holder.second.refill pairs args).map fun pair => key pair.1) = pairs.map fun pair => key pair.1)
    (tempsOwn : OnlyTemps (pairs.map Prod.snd)) (tempsArgs : OnlyTemps args)
    (same : commaList (pairs.map (keyedText keyText)) =
      commaList ((Holder.second.refill pairs args).map (keyedText keyText))) :
    pairs = Holder.second.refill pairs args := by
  refine comma_list_told (keyedText keyText) pairs _ (fun a b member => ?_) (by simp [keyedText])
    (by simp [keyedText]) same
  obtain ⟨left, right⟩ := List.of_mem_zip member
  exact keyed_told keyText a b (injective _ _ (zip_kept _ pairs _ keys.symm a b member))
    (operand_told _ _ (tempsOwn _ (List.mem_map_of_mem left)) (tempsArgs _ (fits ▸ List.mem_map_of_mem right)))

end Lists

section Forms

variable (own args : List Operand) (tempsOwn : OnlyTemps own) (tempsArgs : OnlyTemps args)

include tempsOwn tempsArgs

-- A text without receiver begins with the arrow, and no register does.
theorem invoke_told (method : String) (same : invokeText method own = invokeText method args) : own = args := by
  cases own with
  | nil =>
      cases args with
      | nil => rfl
      | cons b rest =>
          obtain ⟨u, rfl⟩ := tempsArgs b List.mem_cons_self
          have first := congrArg (fun text => text.toList.head?) same
          simp [invokeText, Operand.text, Register.text, Temp.text] at first
  | cons a others =>
      cases args with
      | nil =>
          obtain ⟨t, rfl⟩ := tempsOwn a List.mem_cons_self
          have first := congrArg (fun text => text.toList.head?) same
          simp [invokeText, Operand.text, Register.text, Temp.text] at first
      | cons b rest =>
          obtain ⟨tempA, tempsOthers⟩ := List.forall_mem_cons.mp tempsOwn
          obtain ⟨tempB, tempsRest⟩ := List.forall_mem_cons.mp tempsArgs
          have texts : a.text ++ "->" ++ (method ++ "(" ++ operandList others ++ ")") =
              b.text ++ "->" ++ (method ++ "(" ++ operandList rest ++ ")") := by
            simpa only [invokeText, String.append_assoc] using same
          obtain ⟨receivers, behind⟩ := told_before Operand.text a b (operand_told a b tempA tempB) "->" _ _
            (by decide) texts
          have lists : operandList others = operandList rest := by simpa using behind
          rw [receivers, operand_list_told others rest tempsOthers tempsRest lists]

theorem call_told (callee : Callee) (same : callText callee own = callText callee args) : own = args := by
  cases callee with
  | function key | static key =>
      have lists : operandList own = operandList args := by simpa [callText] using same
      exact operand_list_told own args tempsOwn tempsArgs lists
  | method key | virtual key => exact invoke_told own args tempsOwn tempsArgs _ same

end Forms

section Based

variable (a b : Operand)

theorem call_lambda_told (own args : List Operand) (tempsOwn : OnlyTemps (a :: own)) (tempsArgs : OnlyTemps (b :: args))
    (same : a.text ++ "(" ++ operandList own ++ ")" = b.text ++ "(" ++ operandList args ++ ")") :
    a = b ∧ own = args := by
  obtain ⟨tempA, tempsOwn⟩ := List.forall_mem_cons.mp tempsOwn
  obtain ⟨tempB, tempsArgs⟩ := List.forall_mem_cons.mp tempsArgs
  rw [String.append_left_inj] at same
  obtain ⟨equal, lists⟩ := told_before Operand.text a b (operand_told a b tempA tempB) "(" _ _ (by decide) same
  exact ⟨equal, operand_list_told own args tempsOwn tempsArgs lists⟩

theorem update_told {κ : Type} (keyText : κ → String) (key : κ → Field)
    (injective : ∀ k l, key k = key l → k = l) (updates : List (κ × Operand)) (args : List Operand)
    (fits : (Holder.second.refill updates args).map Prod.snd = args)
    (keys : ((Holder.second.refill updates args).map fun pair => key pair.1) = updates.map fun pair => key pair.1)
    (tempsOwn : OnlyTemps (a :: updates.map Prod.snd)) (tempsArgs : OnlyTemps (b :: args))
    (same : a.text ++ "<~(" ++ commaList (updates.map (keyedText keyText)) ++ ")" =
      b.text ++ "<~(" ++ commaList ((Holder.second.refill updates args).map (keyedText keyText)) ++ ")") :
    b = a ∧ Holder.second.refill updates args = updates := by
  obtain ⟨tempA, tempsOwn⟩ := List.forall_mem_cons.mp tempsOwn
  obtain ⟨tempB, tempsArgs⟩ := List.forall_mem_cons.mp tempsArgs
  rw [String.append_left_inj] at same
  obtain ⟨equal, lists⟩ := told_before Operand.text a b (operand_told a b tempA tempB) "<~(" _ _ (by decide) same
  exact ⟨equal.symm, (keyed_list_told keyText key injective updates args fits keys tempsOwn tempsArgs lists).symm⟩

theorem two_told (c d : Operand) (tempsOwn : OnlyTemps [a, c]) (tempsArgs : OnlyTemps [b, d]) (mark : String)
    (ends : mark.toList.head?.map Char.isDigit = some false)
    (same : a.text ++ mark ++ c.text = b.text ++ mark ++ d.text) : a = b ∧ c = d := by
  obtain ⟨tempA, tempC⟩ := List.forall_mem_cons.mp tempsOwn
  obtain ⟨tempB, tempD⟩ := List.forall_mem_cons.mp tempsArgs
  obtain ⟨equal, behind⟩ := told_before Operand.text a b (operand_told a b tempA tempB) mark _ _ ends same
  exact ⟨equal, one_told c d tempC tempD behind⟩

end Based

end MidIR
