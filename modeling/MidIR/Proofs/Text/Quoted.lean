import Mathlib.Tactic.SplitIfs
import MidIR.Text.Quoted

set_option autoImplicit false

namespace MidIR.Quoted

def hexValue? (digit : Char) : Option Nat := (List.range 16).find? fun n => hexDigit n = digit

def codePoint? (digits : List Char) : Option Char :=
  (digits.mapM hexValue?).map fun values =>
    Char.ofNat (values.foldl (fun value digit => 16 * value + digit) 0)

def escaped? (letter : Char) : Option Char :=
  match letter with
  | '"' => some '"'
  | '\\' => some '\\'
  | 'b' => some '\x08'
  | 'f' => some '\x0c'
  | 'n' => some '\n'
  | 'r' => some '\r'
  | 't' => some '\t'
  | _ => none

def push (char : Char) (result : List Char × List Char) : List Char × List Char :=
  (char :: result.1, result.2)

-- Reads up to the closing quote and leaves what stands behind it. The escape of four digits comes
-- before those of one letter, which have no digits.
def decode : List Char → Option (List Char × List Char)
  | [] => none
  | '"' :: rest => some ([], rest)
  | '\\' :: 'u' :: a :: b :: c :: d :: rest =>
      match codePoint? [a, b, c, d] with
      | none => none
      | some char => (decode rest).map (push char)
  | ['\\'] => none
  | '\\' :: letter :: rest =>
      match escaped? letter with
      | none => none
      | some char => (decode rest).map (push char)
  | char :: rest => (decode rest).map (push char)

theorem hex_value_of_digit : ∀ n < 16, hexValue? (hexDigit n) = some n := by decide

theorem code_point_of_control (char : Char) (control : char.toNat < 32) :
    codePoint? ['0', '0', hexDigit (char.toNat / 16), hexDigit (char.toNat % 16)] = some char := by
  have zero : hexValue? '0' = some 0 := by decide
  have high := hex_value_of_digit (char.toNat / 16) (by omega)
  have low := hex_value_of_digit (char.toNat % 16) (by omega)
  have value : 16 * (char.toNat / 16) + char.toNat % 16 = char.toNat := by omega
  simp [codePoint?, zero, high, low, value]

theorem decode_plain (char : Char) (rest : List Char) (noQuote : char ≠ '"') (noEscape : char ≠ '\\') :
    decode (char :: rest) = (decode rest).map (push char) := by
  rw [decode.eq_def]
  split <;> simp_all

theorem decode_char (char : Char) (rest : List Char) :
    decode (encodeChar char ++ rest) = (decode rest).map (push char) := by
  unfold encodeChar
  split_ifs with quote backslash backspace feed newline carriage tab control
  · simp [decode, escaped?, quote]
  · simp [decode, escaped?, backslash]
  · simp [decode, escaped?, backspace]
  · simp [decode, escaped?, feed]
  · simp [decode, escaped?, newline]
  · simp [decode, escaped?, carriage]
  · simp [decode, escaped?, tab]
  · simp [decode, code_point_of_control char control]
  · exact decode_plain char rest quote backslash

-- A quote in the text is escaped, so the first one that is met outside of an escape is the closing one.
theorem decode_encode (text rest : List Char) : decode (encode text ++ '"' :: rest) = some (text, rest) := by
  induction text with
  | nil => simp [encode, decode]
  | cons char text ih =>
      have first : encode (char :: text) ++ '"' :: rest = encodeChar char ++ (encode text ++ '"' :: rest) := by
        simp [encode]
      rw [first, decode_char, ih]
      rfl

end MidIR.Quoted

namespace MidIR

theorem quote_to_list (text : String) :
    (quote text).toList = '"' :: (Quoted.encode text.toList ++ ['"']) := by
  simp [quote]

end MidIR
