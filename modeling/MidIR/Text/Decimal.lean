set_option autoImplicit false

namespace MidIR

def decimal (n : Nat) : String := String.ofList (Nat.toDigits 10 n)

theorem decimal_to_list (n : Nat) : (decimal n).toList = Nat.toDigits 10 n := by
  simp [decimal]

theorem decimal_digits (n : Nat) : ∀ char ∈ (decimal n).toList, char.isDigit = true := by
  rw [decimal_to_list]
  exact fun char member => Nat.isDigit_of_mem_toDigits (by decide) (by decide) member

theorem decimal_nonempty (n : Nat) : (decimal n).toList ≠ [] := by
  rw [decimal_to_list]
  exact Nat.toDigits_ne_nil

theorem decimal_value (n : Nat) : Nat.ofDigitChars 10 (decimal n).toList 0 = n := by
  rw [decimal_to_list, Nat.ofDigitChars_toDigits (by decide) (by decide)]

theorem decimal_injective (a b : Nat) (same : decimal a = decimal b) : a = b := by
  have values := congrArg (fun text => Nat.ofDigitChars 10 text.toList 0) same
  simpa only [decimal_value] using values

end MidIR
