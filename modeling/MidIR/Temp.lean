import MidIR.Text.Decimal

set_option autoImplicit false

namespace MidIR

structure Temp where
  id : UInt32
deriving DecidableEq, Hashable, Ord

namespace Temp

def first : Temp := ⟨0⟩

def last : Temp := ⟨4294967295⟩

def succ? (t : Temp) : Option Temp :=
  -- The sum below would wrap for the last register alone.
  if t = last then none else some ⟨t.id + 1⟩

def text (t : Temp) : String := "#tmp_" ++ decimal t.id.toNat

instance : LE Temp := ⟨fun a b => a.id ≤ b.id⟩

instance (a b : Temp) : Decidable (a ≤ b) := inferInstanceAs (Decidable (a.id ≤ b.id))

instance : Max Temp := maxOfLe

end Temp

theorem temp_last_id : Temp.last.id.toNat + 1 = UInt32.size := by decide

theorem temp_id_injective (a b : Temp) (same : a.id.toNat = b.id.toNat) : a = b := by
  cases a
  cases b
  simpa [UInt32.toNat_inj] using same

instance : Std.IsLinearOrder Temp where
  le_refl a := UInt32.le_refl a.id
  le_trans _ _ _ := UInt32.le_trans
  le_antisymm a b := fun below above => temp_id_injective a b (Nat.le_antisymm below above)
  le_total a b := UInt32.le_total a.id b.id

theorem temp_max_eq (a b : Temp) : max a b = if a ≤ b then b else a := rfl

instance : Std.LawfulOrderMax Temp where
  max_eq_or a b := by
    by_cases below : a ≤ b
    · exact Or.inr (by simp only [temp_max_eq, if_pos below])
    · exact Or.inl (by simp only [temp_max_eq, if_neg below])
  max_le_iff a b c := by
    by_cases below : a ≤ b
    · simp only [temp_max_eq, if_pos below]
      exact ⟨fun bound => ⟨Std.le_trans below bound, bound⟩, And.right⟩
    · have above : b ≤ a := (Std.le_total (a := a) (b := b)).resolve_left below
      simp only [temp_max_eq, if_neg below]
      exact ⟨fun bound => ⟨bound, Std.le_trans above bound⟩, And.left⟩

theorem temp_succ_last : Temp.last.succ? = none := by simp [Temp.succ?]

theorem temp_succ_id (t : Temp) (below : t ≠ Temp.last) :
    ∃ u, t.succ? = some u ∧ u.id.toNat = t.id.toNat + 1 := by
  have bound := t.id.toNat_lt
  have different : t.id.toNat ≠ Temp.last.id.toNat := fun same => below (temp_id_injective _ _ same)
  have top : Temp.last.id.toNat + 1 = 4294967296 := temp_last_id
  refine ⟨⟨t.id + 1⟩, by simp [Temp.succ?, below], ?_⟩
  simp only [UInt32.toNat_add, UInt32.reduceToNat]
  omega

end MidIR
