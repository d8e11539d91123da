import Mathlib.Data.List.Nodup
import MidIR.Temp.Supply

set_option autoImplicit false

namespace MidIR

-- The number that comes at `count`, as long as there is a register of that number.
def numberAt? (count : Nat) : Option Nat := if count < UInt32.size then some count else none

theorem number_at_inside (count : Nat) (inside : count < UInt32.size) : numberAt? count = some count :=
  if_pos inside

theorem number_at_beyond (count : Nat) (beyond : UInt32.size ≤ count) : numberAt? count = none :=
  if_neg (Nat.not_lt.mpr beyond)

theorem temp_succ_count (t : Temp) : TempSupply.count ⟨t.succ?⟩ = t.id.toNat + 1 := by
  by_cases top : t = Temp.last
  · rw [top, temp_succ_last, temp_last_id]
    rfl
  · obtain ⟨u, next, number⟩ := temp_succ_id t top
    rw [next, ← number]
    rfl

theorem supply_count_bound (supply : TempSupply) : supply.count ≤ UInt32.size := by
  obtain ⟨next⟩ := supply
  cases next with
  | none => exact Nat.le_refl UInt32.size
  | some t => exact Nat.le_of_lt t.id.toNat_lt_size

theorem supply_exhausted_iff (supply : TempSupply) :
    supply.exhausted = true ↔ UInt32.size ≤ supply.count := by
  obtain ⟨next⟩ := supply
  cases next with
  | none => simp [TempSupply.exhausted, TempSupply.count]
  | some t =>
      have bound := t.id.toNat_lt_size
      simp only [TempSupply.exhausted, TempSupply.count, Option.isNone_some, Bool.false_eq_true, false_iff]
      omega

theorem fresh_number (supply : TempSupply) :
    supply.fresh.1.map (fun t => t.id.toNat) = numberAt? supply.count := by
  obtain ⟨next⟩ := supply
  cases next with
  | none => exact (number_at_beyond UInt32.size (Nat.le_refl _)).symm
  | some t => exact (number_at_inside t.id.toNat t.id.toNat_lt_size).symm

theorem fresh_count (supply : TempSupply) : supply.fresh.2.count = min (supply.count + 1) UInt32.size := by
  obtain ⟨next⟩ := supply
  cases next with
  | none => exact (Nat.min_eq_right (Nat.le_succ UInt32.size)).symm
  | some t =>
      have bound := t.id.toNat_lt_size
      have counted : (TempSupply.fresh ⟨some t⟩).2.count = t.id.toNat + 1 := temp_succ_count t
      have before : (TempSupply.mk (some t)).count = t.id.toNat := rfl
      rw [counted, before]
      omega

theorem number_at_min (count : Nat) (offset : Nat) :
    numberAt? (min count UInt32.size + offset) = numberAt? (count + offset) := by
  by_cases inside : count < UInt32.size
  · rw [Nat.min_eq_left (Nat.le_of_lt inside)]
  · rw [number_at_beyond _ (by omega), number_at_beyond _ (by omega)]

theorem take_count (n : Nat) (supply : TempSupply) :
    (supply.take n).2.count = min (supply.count + n) UInt32.size := by
  induction n generalizing supply with
  | zero => exact (Nat.min_eq_left (supply_count_bound supply)).symm
  | succ n ih =>
      have later := ih supply.fresh.2
      rw [fresh_count] at later
      rw [TempSupply.take, later]
      omega

theorem take_numbers (n : Nat) (supply : TempSupply) :
    (supply.take n).1.map (Option.map fun t => t.id.toNat) =
      (List.range n).map fun i => numberAt? (supply.count + i) := by
  induction n generalizing supply with
  | zero => rfl
  | succ n ih =>
      have later := ih supply.fresh.2
      rw [fresh_count] at later
      rw [TempSupply.take, List.map_cons, fresh_number, later, List.range_succ_eq_map, List.map_cons, List.map_map]
      congr 1
      apply List.map_congr_left
      intro i _
      rw [number_at_min, Function.comp_apply, Nat.succ_eq_add_one, Nat.add_comm i 1, Nat.add_assoc]

example : (TempSupply.take 3 (.after (some ⟨4294967294⟩))).1 = [some Temp.last, none, none] := by decide

theorem taken_number (n : Nat) (supply : TempSupply) (t : Temp) (taken : some t ∈ (supply.take n).1) :
    supply.count ≤ t.id.toNat := by
  have listed : some t.id.toNat ∈ (supply.take n).1.map (Option.map fun u => u.id.toNat) :=
    List.mem_map_of_mem taken
  rw [take_numbers, List.mem_map] at listed
  obtain ⟨i, -, same⟩ := listed
  by_cases inside : supply.count + i < UInt32.size
  · rw [number_at_inside _ inside] at same
    have number := Option.some.inj same
    omega
  · rw [number_at_beyond _ (Nat.not_lt.mp inside)] at same
    cases same

theorem taken_nodup (n : Nat) (supply : TempSupply) : ((supply.take n).1.filterMap id).Nodup := by
  have numbers : ((supply.take n).1.filterMap id).map (fun t => t.id.toNat) =
      (List.range n).filterMap fun i => numberAt? (supply.count + i) := by
    have handed := congrArg (List.filterMap id) (take_numbers n supply)
    simpa only [List.filterMap_map, List.map_filterMap, Function.comp_def, id_eq] using handed
  have distinct : ((List.range n).filterMap fun i => numberAt? (supply.count + i)).Nodup := by
    refine List.Nodup.filterMap ?_ List.nodup_range
    intro i j number atI atJ
    simp only [numberAt?, Option.mem_def, Option.ite_none_right_eq_some, Option.some.injEq] at atI atJ
    omega
  exact List.Nodup.of_map _ (numbers ▸ distinct)

end MidIR
