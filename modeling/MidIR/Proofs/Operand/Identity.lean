import Mathlib.Data.String.Basic
import Std.Data.ExtHashMap
import MidIR.Operand

set_option autoImplicit false

namespace MidIR

inductive OperandKind where
  | temp
  | var (kind : VarKind)
  | none
  | true
  | false
  | int
  | string
deriving DecidableEq

namespace OperandKind

def all : List OperandKind :=
  [temp, var .captured, var .parameter, var .localVar, none, true, false, int, string]

def sigil : OperandKind → String
  | temp => "#tmp_"
  | var kind => kind.sigil
  | none => "=none="
  | true => "=true="
  | false => "=false="
  | int => "=int="
  | string => "=string="

end OperandKind

namespace Operand

def kind : Operand → OperandKind
  | .register (.temp _) => .temp
  | .register (.var kind _) => .var kind
  | .constant .none => .none
  | .constant .true => .true
  | .constant .false => .false
  | .constant (.int _) => .int
  | .constant (.string _) => .string

def payload : Operand → String
  | .register (.temp t) => decimal t.id.toNat
  | .register (.var _ name) => name
  | .constant (.int text) => text
  | .constant (.string text) => text
  | _ => ""

end Operand

theorem operand_kind_mem_all (kind : OperandKind) : kind ∈ OperandKind.all := by
  cases kind with
  | var kind => cases kind <;> decide
  | _ => decide

theorem listed_sigil_prefix_free : ∀ a ∈ OperandKind.all, ∀ b ∈ OperandKind.all,
    a.sigil.toList <+: b.sigil.toList → a = b := by
  decide +kernel

theorem sigil_prefix_free (a b : OperandKind) (begins : a.sigil.toList <+: b.sigil.toList) : a = b :=
  listed_sigil_prefix_free a (operand_kind_mem_all a) b (operand_kind_mem_all b) begins

theorem identity_split (a : Operand) : a.identity = a.kind.sigil ++ a.payload := by
  rcases a with (t | ⟨kind, name⟩) | c
  · rfl
  · rfl
  · cases c <;> rfl

theorem identity_starts (a b : Operand) (same : a.identity = b.identity) :
    a.kind.sigil.toList <+: b.identity.toList := by
  rw [← same, identity_split, String.toList_append]
  exact List.prefix_append _ _

theorem identity_kind (a b : Operand) (same : a.identity = b.identity) : a.kind = b.kind := by
  have first := identity_starts a b same
  have second := identity_starts b b rfl
  rcases List.prefix_or_prefix_of_prefix first second with begins | begins
  · exact sigil_prefix_free a.kind b.kind begins
  · exact (sigil_prefix_free b.kind a.kind begins).symm

theorem identity_payload (a b : Operand) (same : a.identity = b.identity) : a.payload = b.payload := by
  have kinds := identity_kind a b same
  rw [identity_split, identity_split, kinds] at same
  exact (String.append_right_inj b.kind.sigil).mp same

theorem register_kind_constant (r : Register) (c : Constant) :
    (Operand.register r).kind ≠ (Operand.constant c).kind := by
  cases r <;> cases c <;> simp [Operand.kind]

theorem register_of_kind_payload (r s : Register) (kinds : (Operand.register r).kind = (Operand.register s).kind)
    (payloads : (Operand.register r).payload = (Operand.register s).payload) : r = s := by
  cases r with
  | temp t =>
      cases s with
      | temp u => rw [temp_id_injective t u (decimal_injective _ _ payloads)]
      | var other also => cases kinds
  | var kind name =>
      cases s with
      | temp u => cases kinds
      | var other also =>
          cases kinds
          exact congrArg (Register.var kind) payloads

theorem constant_of_kind_payload (c d : Constant) (kinds : (Operand.constant c).kind = (Operand.constant d).kind)
    (payloads : (Operand.constant c).payload = (Operand.constant d).payload) : c = d := by
  cases c with
  | none =>
      cases d with
      | none => rfl
      | _ => cases kinds
  | true =>
      cases d with
      | true => rfl
      | _ => cases kinds
  | false =>
      cases d with
      | false => rfl
      | _ => cases kinds
  | int text =>
      cases d with
      | int other => exact congrArg Constant.int payloads
      | _ => cases kinds
  | string text =>
      cases d with
      | string other => exact congrArg Constant.string payloads
      | _ => cases kinds

theorem operand_of_kind_payload (a b : Operand) (kinds : a.kind = b.kind) (payloads : a.payload = b.payload) :
    a = b := by
  cases a with
  | register r =>
      cases b with
      | register s => exact congrArg Operand.register (register_of_kind_payload r s kinds payloads)
      | constant d => exact absurd kinds (register_kind_constant r d)
  | constant c =>
      cases b with
      | register s => exact absurd kinds.symm (register_kind_constant s c)
      | constant d => exact congrArg Operand.constant (constant_of_kind_payload c d kinds payloads)

theorem identity_injective (a b : Operand) (same : a.identity = b.identity) : a = b :=
  operand_of_kind_payload a b (identity_kind a b same) (identity_payload a b same)

theorem identities_separate (a b : Operand) :
    (a.identity = b.identity ↔ a = b) ∧
      ¬ (a.kind ≠ b.kind ∧ a.identity = b.identity) ∧
      ∀ (V : Type) (table : Std.ExtHashMap String V) (v : V),
        (table.insert a.identity v)[b.identity]? = if a = b then some v else table[b.identity]? := by
  have separate : a.identity = b.identity ↔ a = b := ⟨identity_injective a b, congrArg Operand.identity⟩
  refine ⟨separate, ?_, ?_⟩
  · rintro ⟨different, same⟩
    exact different (identity_kind a b same)
  · intro V table v
    rw [Std.ExtHashMap.getElem?_insert]
    simp only [beq_iff_eq, separate]

-- A name may look like the identity of something else.
example : (Operand.var .localVar "#tmp_0").identity ≠ (Operand.temp Temp.first).identity := by decide +kernel

end MidIR
