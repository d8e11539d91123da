import Mathlib.Data.List.Basic
import MidIR.Op.Text

set_option autoImplicit false

namespace MidIR

def NoDigit (text : List Char) : Prop := ∀ char, text.head? = some char → char.isDigit = false

-- Whatever comes behind the two, unless it goes on with a digit, they are the same if the texts are.
def Told {α : Type} (write : α → String) (a b : α) : Prop :=
  ∀ x y, NoDigit x → NoDigit y → (write a).toList ++ x = (write b).toList ++ y → a = b ∧ x = y

theorem no_digit_nil : NoDigit [] := by
  intro char first
  cases first

theorem no_digit_cons (char : Char) (rest : List Char) (other : char.isDigit = false) : NoDigit (char :: rest) := by
  intro first same
  cases same
  exact other

theorem no_digit_mark (mark : String) (rest : List Char) (ends : mark.toList.head?.map Char.isDigit = some false) :
    NoDigit (mark.toList ++ rest) := by
  obtain ⟨first, marked, other⟩ := Option.map_eq_some_iff.mp ends
  obtain ⟨others, text⟩ := List.head?_eq_some_iff.mp marked
  rw [text]
  exact no_digit_cons first _ other

theorem decimal_digits_first (n : Nat) (rest : List Char) (ends : NoDigit rest) :
    ((decimal n).toList ++ rest).takeWhile Char.isDigit = (decimal n).toList := by
  rw [List.takeWhile_append_of_pos (decimal_digits n)]
  cases rest with
  | nil => simp
  | cons char others => simp [ends char rfl]

theorem decimal_digits_behind (n : Nat) (rest : List Char) (ends : NoDigit rest) :
    ((decimal n).toList ++ rest).dropWhile Char.isDigit = rest := by
  rw [List.dropWhile_append_of_pos (decimal_digits n)]
  cases rest with
  | nil => rfl
  | cons char others => simp [ends char rfl]

theorem decimal_told (m n : Nat) : Told decimal m n := by
  intro x y endsX endsY same
  have digits := congrArg (List.takeWhile Char.isDigit) same
  have behind := congrArg (List.dropWhile Char.isDigit) same
  rw [decimal_digits_first m x endsX, decimal_digits_first n y endsY] at digits
  rw [decimal_digits_behind m x endsX, decimal_digits_behind n y endsY] at behind
  exact ⟨decimal_injective m n (String.toList_inj.mp digits), behind⟩

theorem temp_told (t u : Temp) : Told Temp.text t u := by
  intro x y endsX endsY same
  have digits : (decimal t.id.toNat).toList ++ x = (decimal u.id.toNat).toList ++ y := by
    simpa [Temp.text] using same
  obtain ⟨numbers, rest⟩ := decimal_told t.id.toNat u.id.toNat x y endsX endsY digits
  exact ⟨temp_id_injective t u numbers, rest⟩

section List

variable {α : Type} (write : α → String)

theorem told_alone (a b : α) (told : Told write a b) (same : write a = write b) : a = b :=
  (told [] [] no_digit_nil no_digit_nil (by rw [same])).1

theorem told_before (a b : α) (told : Told write a b) (mark s t : String)
    (ends : mark.toList.head?.map Char.isDigit = some false)
    (same : write a ++ mark ++ s = write b ++ mark ++ t) : a = b ∧ s = t := by
  have texts := congrArg String.toList same
  simp only [String.toList_append, List.append_assoc] at texts
  obtain ⟨equal, behind⟩ := told _ _ (no_digit_mark mark _ ends) (no_digit_mark mark _ ends) texts
  exact ⟨equal, String.toList_inj.mp (List.append_cancel_left behind)⟩

def behindComma (items : List α) : List Char := items.flatMap fun a => ',' :: ' ' :: (write a).toList

theorem comma_list_cons (a : α) (rest : List α) :
    (commaList ((a :: rest).map write)).toList = (write a).toList ++ behindComma write rest := by
  induction rest generalizing a with
  | nil => simp [commaList, behindComma]
  | cons b others ih =>
      have later := ih b
      simp only [commaList, String.toList_intercalate, List.map_cons, List.intercalate_cons_cons] at later ⊢
      rw [later]
      simp [behindComma]

theorem behind_comma_ends (items : List α) : NoDigit (behindComma write items) := by
  cases items with
  | nil => exact no_digit_nil
  | cons a rest => exact no_digit_cons ',' _ rfl

theorem behind_comma_told (as bs : List α) (told : ∀ a b, (a, b) ∈ as.zip bs → Told write a b)
    (same : behindComma write as = behindComma write bs) : as = bs := by
  induction as generalizing bs with
  | nil =>
      cases bs with
      | nil => rfl
      | cons b others => cases same
  | cons a rest ih =>
      cases bs with
      | nil => cases same
      | cons b others =>
          have items : (write a).toList ++ behindComma write rest = (write b).toList ++ behindComma write others :=
            (List.append_right_inj [',', ' ']).mp same
          obtain ⟨first, later⟩ := told a b List.mem_cons_self _ _ (behind_comma_ends write rest)
            (behind_comma_ends write others) items
          have further := ih others (fun c d member => told c d (List.mem_cons_of_mem _ member)) later
          exact congrArg₂ List.cons first further

theorem comma_list_nil_iff (items : List α) (shown : ∀ a ∈ items, write a ≠ "") :
    commaList (items.map write) = "" ↔ items = [] := by
  cases items with
  | nil => exact iff_of_true rfl rfl
  | cons a rest =>
      have first := shown a List.mem_cons_self
      rw [← String.toList_inj, comma_list_cons]
      simp [first]

theorem comma_list_told (as bs : List α) (told : ∀ a b, (a, b) ∈ as.zip bs → Told write a b)
    (shownA : ∀ a ∈ as, write a ≠ "") (shownB : ∀ b ∈ bs, write b ≠ "")
    (same : commaList (as.map write) = commaList (bs.map write)) : as = bs := by
  cases as with
  | nil => exact ((comma_list_nil_iff write bs shownB).mp same.symm).symm
  | cons a rest =>
      cases bs with
      | nil => exact (comma_list_nil_iff write (a :: rest) shownA).mp same
      | cons b others =>
          have texts := congrArg String.toList same
          rw [comma_list_cons, comma_list_cons] at texts
          exact behind_comma_told write _ _ told (congrArg ([',', ' '] ++ ·) texts)

end List

end MidIR
