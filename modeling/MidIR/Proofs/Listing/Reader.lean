import Mathlib.Data.List.Basic
import MidIR.Listing.Json
import MidIR.Proofs.Text.Delimited
import MidIR.Proofs.Text.Quoted

set_option autoImplicit false

namespace MidIR

-- Takes a beginning of its input and leaves the rest.
abbrev Reader (α : Type) := List Char → Option (α × List Char)

variable {α β : Type}

-- The reader takes `text` and nothing more, whatever comes behind it.
def Reads (reader : Reader α) (text : List Char) (value : α) : Prop :=
  ∀ rest, reader (text ++ rest) = some (value, rest)

namespace Reader

def map (f : α → β) (reader : Reader α) : Reader β := fun input =>
  (reader input).map fun result => (f result.1, result.2)

def quoted : Reader String := fun input => do
  let rest ← input.dropPrefix? ['"']
  let (text, rest) ← Quoted.decode rest
  return (String.ofList text, rest)

-- A number has no end of its own, so it is read together with the mark behind it.
def naturalBefore (mark : String) : Reader Nat := fun input => do
  let digits := input.takeWhile Char.isDigit
  let rest ← (input.dropWhile Char.isDigit).dropPrefix? mark.toList
  return (Nat.ofDigitChars 10 digits 0, rest)

def integerBefore (mark : String) : Reader Int := fun input =>
  match input.dropPrefix? ['-'] with
  | some rest => map (fun n => -Int.ofNat n) (naturalBefore mark) rest
  | none => map Int.ofNat (naturalBefore mark) input

-- One element or more. A separator without text would not bring the reading forward, and ends it.
def elements (element : Reader α) (separator closing : List Char) : Reader (List α) := fun input =>
  match element input with
  | none => none
  | some (value, rest) =>
      match rest.dropPrefix? separator with
      | none => (rest.dropPrefix? closing).map fun behind => ([value], behind)
      | some next =>
          if next.length < input.length then
            (elements element separator closing next).map fun result => (value :: result.1, result.2)
          else none
termination_by input => input.length

def array (indent : String) (element : Reader α) : Reader (List α) := fun input =>
  match input.dropPrefix? "[]".toList with
  | some rest => some ([], rest)
  | none => do
      let inner := "\n  " ++ indent
      let rest ← input.dropPrefix? ("[" ++ inner).toList
      elements element ("," ++ inner).toList ("\n" ++ indent ++ "]").toList rest

end Reader

theorem drop_prefix_append (text rest : List Char) : (text ++ rest).dropPrefix? text = some rest :=
  List.dropPrefix?_append_of_beq rest (by simp)

theorem drop_prefix_other (first other : Char) (different : other ≠ first) (text rest : List Char) :
    (other :: rest).dropPrefix? (first :: text) = none := by
  simp [List.dropPrefix?, different]

theorem reads_map (f : α → β) (reader : Reader α) (text : List Char) (value : α)
    (reads : Reads reader text value) : Reads (reader.map f) text (f value) := by
  intro rest
  rw [Reader.map, reads rest]
  rfl

theorem reads_quoted (text : String) : Reads Reader.quoted (quote text).toList text := by
  intro rest
  have opened : (quote text).toList ++ rest = ['"'] ++ (Quoted.encode text.toList ++ '"' :: rest) := by
    simp [quote_to_list]
  rw [Reader.quoted, opened, drop_prefix_append]
  simp [Quoted.decode_encode]

theorem reads_natural (mark : String) (ends : mark.toList.head?.map Char.isDigit = some false) (n : Nat) :
    Reads (Reader.naturalBefore mark) ((decimal n).toList ++ mark.toList) n := by
  intro rest
  have stops := no_digit_mark mark rest ends
  have digits := decimal_digits_first n (mark.toList ++ rest) stops
  have behind := decimal_digits_behind n (mark.toList ++ rest) stops
  simp [Reader.naturalBefore, digits, behind, drop_prefix_append, decimal_value]

theorem decimal_unsigned (n : Nat) (rest : List Char) : ((decimal n).toList ++ rest).dropPrefix? ['-'] = none := by
  cases digits : (decimal n).toList with
  | nil => exact absurd digits (decimal_nonempty n)
  | cons char others =>
      have digit : char.isDigit = true := decimal_digits n char (by simp [digits])
      have different : char ≠ '-' := by
        rintro rfl
        exact absurd digit (by decide)
      exact drop_prefix_other '-' char different [] (others ++ rest)

theorem reads_integer (mark : String) (ends : mark.toList.head?.map Char.isDigit = some false) (value : Int) :
    Reads (Reader.integerBefore mark) ((jsonInt value).toList ++ mark.toList) value := by
  intro rest
  cases value with
  | ofNat n =>
      have read := reads_map Int.ofNat _ _ n (reads_natural mark ends n) rest
      simpa only [jsonInt, Reader.integerBefore, List.append_assoc, decimal_unsigned] using read
  | negSucc n =>
      have read := reads_map (fun n => -Int.ofNat n) _ _ (n + 1) (reads_natural mark ends (n + 1)) rest
      have signed : (jsonInt (.negSucc n)).toList ++ mark.toList ++ rest =
          ['-'] ++ ((decimal (n + 1)).toList ++ mark.toList ++ rest) := by simp [jsonInt]
      rw [Reader.integerBefore, signed, drop_prefix_append]
      exact read

section Array

variable (element : Reader α) (write : α → String) (read : ∀ value, Reads element (write value).toList value)

include read

-- Induction on the elements behind the first. Behind an element stands the separator as long as there
-- are others, the closing text otherwise, and `apart` says which of the two it is.
theorem reads_elements (separator closing : List Char)
    (apart : ∀ rest, (closing ++ rest).dropPrefix? separator = none) (first : α) (others : List α) :
    Reads (Reader.elements element separator closing)
      (separator.intercalate ((first :: others).map fun value => (write value).toList) ++ closing)
      (first :: others) := by
  intro rest
  induction others generalizing first with
  | nil =>
      rw [Reader.elements]
      simp [read first (closing ++ rest), apart, drop_prefix_append]
  | cons second others ih =>
      have later := ih second
      generalize behindEq : separator.intercalate ((second :: others).map fun value => (write value).toList) ++
        closing ++ rest = behind at later
      have separated : separator.intercalate ((first :: second :: others).map fun value => (write value).toList) ++
          closing ++ rest = (write first).toList ++ (separator ++ behind) := by
        simp [← behindEq, List.intercalate_cons_cons]
      have separatorNonempty : 0 < separator.length := by
        refine List.length_pos_of_ne_nil fun empty => ?_
        simpa [empty] using apart []
      have shorter : behind.length < ((write first).toList ++ (separator ++ behind)).length := by
        simp only [List.length_append]
        omega
      rw [separated, Reader.elements, read first]
      simp only [drop_prefix_append, if_pos shorter, later, Option.map_some]

theorem reads_array (indent : String) (values : List α) :
    Reads (Reader.array indent element) (jsonArray indent (values.map write)).toList values := by
  intro rest
  cases values with
  | nil => rw [Reader.array, List.map_nil, jsonArray, if_pos rfl, drop_prefix_append]
  | cons first others =>
      have opened : (jsonArray indent ((first :: others).map write)).toList ++ rest =
          ("[" ++ ("\n  " ++ indent)).toList ++
            (("," ++ ("\n  " ++ indent)).toList.intercalate ((first :: others).map fun value => (write value).toList) ++
              ("\n" ++ indent ++ "]").toList ++ rest) := by
        simp [jsonArray, String.toList_intercalate, Function.comp_def]
      have nonempty : ∀ behind, (("[" ++ ("\n  " ++ indent)).toList ++ behind).dropPrefix? "[]".toList = none := by
        simp [List.dropPrefix?]
      have apart : ∀ behind, (("\n" ++ indent ++ "]").toList ++ behind).dropPrefix?
          ("," ++ ("\n  " ++ indent)).toList = none := by
        simp [drop_prefix_other]
      rw [opened, Reader.array, nonempty]
      simp only [drop_prefix_append]
      exact reads_elements element write read _ _ apart first others rest

end Array

end MidIR
