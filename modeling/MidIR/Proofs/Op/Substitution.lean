import MidIR.Instr
import MidIR.Proofs.Op.Traversal

set_option autoImplicit false

namespace MidIR

def Operand.replaced (old new a : Operand) : Operand := if a = old then new else a

theorem replaced_absent (old new : Operand) (args : List Operand) (absent : old ∉ args) :
    args.map (old.replaced new) = args := by
  have kept : ∀ a ∈ args, old.replaced new a = a := by
    intro a member
    exact if_neg fun same : a = old => absent (same ▸ member)
  exact (List.map_congr_left kept).trans (List.map_id' args)

theorem replaced_gone (old new : Operand) (different : old ≠ new) (args : List Operand) :
    old ∉ args.map (old.replaced new) := by
  intro left
  obtain ⟨a, -, same⟩ := List.mem_map.mp left
  by_cases here : a = old
  · exact different (same.symm.trans (if_pos here))
  · exact here ((if_neg here).symm.trans same)

theorem replaced_new_iff (old new a : Operand) (other : a ≠ new) : old.replaced new a = new ↔ a = old := by
  by_cases same : a = old
  · simp [Operand.replaced, same]
  · simp [Operand.replaced, same, other]

theorem replaced_twice (old new a : Operand) (other : a ≠ new) : new.replaced old (old.replaced new a) = a := by
  by_cases same : a = old
  · simp [Operand.replaced, same]
  · simp [Operand.replaced, same, other]

theorem replaced_restored (old new : Operand) (args : List Operand) (fresh : new ∉ args) :
    (args.map (old.replaced new)).map (new.replaced old) = args := by
  have restored : ∀ a ∈ args, new.replaced old (old.replaced new a) = a := by
    intro a member
    exact replaced_twice old new a fun same => fresh (same ▸ member)
  rw [List.map_map]
  exact (List.map_congr_left restored).trans (List.map_id' args)

theorem replaced_count (old new : Operand) (args : List Operand) (fresh : new ∉ args) :
    (args.map (old.replaced new)).count new = args.count old := by
  rw [List.count, List.countP_map]
  apply List.countP_congr
  intro a member
  have other : a ≠ new := fun same => fresh (same ▸ member)
  simpa using replaced_new_iff old new a other

theorem replace_and_count_one (old new a : Operand) (n : Nat) :
    (replaceAndCount old new a).run n = (old.replaced new a, n + [a].count old) := by
  by_cases same : a = old
  · subst same
    simp only [replaceAndCount, Operand.replaced, if_true, List.count_singleton_self]
    rfl
  · simp only [replaceAndCount, Operand.replaced, if_neg same, List.count_cons_of_ne same, List.count_nil]
    rfl

theorem replace_and_count_all (old new : Operand) (args : List Operand) (n : Nat) :
    (args.mapM (replaceAndCount old new)).run n = (args.map (old.replaced new), n + args.count old) := by
  induction args generalizing n with
  | nil => rfl
  | cons a rest ih =>
      have total : n + (a :: rest).count old = n + [a].count old + rest.count old := by
        rw [← List.singleton_append, List.count_append, Nat.add_assoc]
      rw [List.mapM_cons, StateT.run_bind, replace_and_count_one, total]
      exact congrArg (fun result => (old.replaced new a :: result.1, result.2)) (ih (n + [a].count old))

theorem op_substitute (old new : Operand) (op : Op) :
    op.substitute old new = (op.refill (op.held.map (old.replaced new)), op.held.count old) := by
  rw [Op.substitute, op_visit, StateT.run_map, replace_and_count_all, Nat.zero_add]
  rfl

theorem op_substitute_held (old new : Operand) (op : Op) :
    (op.substitute old new).1.held = op.held.map (old.replaced new) := by
  rw [op_substitute]
  exact op_refill_held op _ (List.length_map _)

theorem op_substitute_gone (old new : Operand) (different : old ≠ new) (op : Op) :
    old ∉ (op.substitute old new).1.held := by
  rw [op_substitute_held]
  exact replaced_gone old new different op.held

theorem op_substitute_back (old new : Operand) (op : Op) (fresh : new ∉ op.held) :
    (op.substitute old new).1.substitute new old = (op, (op.substitute old new).2) := by
  have length : (op.held.map (old.replaced new)).length = op.held.length := List.length_map _
  rw [op_substitute new old, op_substitute_held, replaced_count old new op.held fresh,
    replaced_restored old new op.held fresh, op_substitute old new]
  refine Prod.ext ?_ rfl
  exact (op_refill_twice op _ op.held length rfl).trans (op_refill_own op)

theorem instr_substitute_back (old new : Operand) (instr : Instr) (fresh : new ∉ instr.op.held) :
    (instr.substitute old new).1.substitute new old = (instr, (instr.substitute old new).2) := by
  have back := op_substitute_back old new instr.op fresh
  simp only [Instr.substitute, back]

theorem value_held_read (value : Value) (a : Operand) (held : a ∈ value.held) : a ∈ value.reads := by
  cases value with
  | var | lambda => cases held
  | _ => exact held

theorem op_held_read (op : Op) (a : Operand) (held : a ∈ op.held) : a ∈ op.reads := by
  cases op with
  | assign target value => exact value_held_read value a held
  | _ => exact held

theorem op_substitute_absent (old new : Operand) (op : Op) (absent : old ∉ op.held) :
    op.substitute old new = (op, 0) := by
  rw [op_substitute, replaced_absent old new op.held absent, op_refill_own, List.count_eq_zero_of_not_mem absent]

-- Neither of two replacements meets what the other has put in, so either may come first.
theorem replaced_commute (a b c d arg : Operand) (apart : a ≠ c) (first : b ≠ c) (second : d ≠ a) :
    c.replaced d (a.replaced b arg) = a.replaced b (c.replaced d arg) := by
  by_cases hereA : arg = a
  · simp [Operand.replaced, hereA, apart, first]
  · by_cases hereC : arg = c
    · simp [Operand.replaced, hereC, second, Ne.symm apart]
    · simp [Operand.replaced, hereA, hereC]

theorem replaced_other_count (a b c : Operand) (apart : a ≠ c) (first : b ≠ c) (args : List Operand) :
    (args.map (a.replaced b)).count c = args.count c := by
  rw [List.count, List.countP_map]
  apply List.countP_congr
  intro arg _
  by_cases here : arg = a
  · simp [Operand.replaced, here, apart, first]
  · simp [Operand.replaced, here]

theorem op_substitute_twice (a b c d : Operand) (op : Op) :
    (op.substitute a b).1.substitute c d =
      (op.refill ((op.held.map (a.replaced b)).map (c.replaced d)), (op.held.map (a.replaced b)).count c) := by
  have length : (op.held.map (a.replaced b)).length = op.held.length := List.length_map _
  have also : ((op.held.map (a.replaced b)).map (c.replaced d)).length = op.held.length :=
    (List.length_map _).trans length
  rw [op_substitute c d, op_substitute_held, op_substitute a b]
  exact congrArg (·, _) (op_refill_twice op _ _ length also)

theorem substitution_algebra (op : Op) :
    (∀ old new : Operand,
        (op.substitute old new).2 = op.visited.count old ∧
        (op.substitute old new).1.visited = op.visited.map (fun a => if a = old then new else a) ∧
        (op.substitute old new).1.kind = op.kind ∧
        (op.substitute old new).1.target? = op.target? ∧
        (op.substitute old new).1.details = op.details ∧
        ((op.substitute old new).2 = 0 → (op.substitute old new).1 = op) ∧
        (old ≠ new → (op.substitute old new).1.substitute old new = ((op.substitute old new).1, 0))) ∧
      ∀ a b c d : Operand, a ≠ c → b ≠ c → d ≠ a →
        ((op.substitute a b).1.substitute c d).1 = ((op.substitute c d).1.substitute a b).1 ∧
        (op.substitute a b).2 = ((op.substitute c d).1.substitute a b).2 ∧
        ((op.substitute a b).1.substitute c d).2 = (op.substitute c d).2 := by
  constructor
  · intro old new
    have substituted := op_substitute old new op
    have length : (op.held.map (old.replaced new)).length = op.held.length := List.length_map _
    refine ⟨?_, ?_, ?_, ?_, ?_, ?_, ?_⟩
    · rw [op_visited, substituted]
    · rw [op_visited, op_visited, op_substitute_held]
      rfl
    · rw [substituted, op_refill_kind]
    · rw [substituted, op_refill_target]
    · rw [substituted, op_refill_details op _ length]
    · intro none
      rw [substituted] at none
      rw [op_substitute_absent old new op (List.count_eq_zero.mp none)]
    · intro different
      exact op_substitute_absent old new _ (op_substitute_gone old new different op)
  · intro a b c d apart first second
    have lists : (op.held.map (a.replaced b)).map (c.replaced d) = (op.held.map (c.replaced d)).map (a.replaced b) := by
      rw [List.map_map, List.map_map]
      exact List.map_congr_left fun arg _ => replaced_commute a b c d arg apart first second
    rw [op_substitute_twice, op_substitute_twice, op_substitute a b, op_substitute c d, lists]
    exact ⟨rfl, (replaced_other_count c d a apart.symm second op.held).symm,
      replaced_other_count a b c apart first op.held⟩

theorem crossed_substitutions_commute :
    let x := Operand.var .localVar "x"
    let a := Operand.temp Temp.first
    let nothing := Operand.constant .none
    let op : Op := .assign Temp.first (.updateMembers .field x [("b", a), ("a", x)])
    let after : Op := .assign Temp.first (.updateMembers .field nothing [("b", nothing), ("a", nothing)])
    op.substitute x nothing = (.assign Temp.first (.updateMembers .field nothing [("b", a), ("a", nothing)]), 2) ∧
      (op.substitute x nothing).1.substitute x nothing = ((op.substitute x nothing).1, 0) ∧
      (x ≠ a ∧ nothing ≠ a ∧ nothing ≠ x) ∧
      ((op.substitute x nothing).1.substitute a nothing).1 = after ∧
      ((op.substitute a nothing).1.substitute x nothing).1 = after ∧
      ((op.substitute a nothing).1.substitute x nothing).2 = 2 := by
  intro x a nothing op after
  have different : x ≠ nothing := by decide
  have apart : x ≠ a ∧ nothing ≠ a ∧ nothing ≠ x := by decide
  have first : op.substitute x nothing =
      (.assign Temp.first (.updateMembers .field nothing [("b", a), ("a", nothing)]), 2) := rfl
  have crossed : ((op.substitute x nothing).1.substitute a nothing).1 = after := rfl
  obtain ⟨-, -, -, -, -, -, again⟩ := (substitution_algebra op).1 x nothing
  obtain ⟨same, count, -⟩ := (substitution_algebra op).2 x nothing a nothing apart.1 apart.2.1 apart.2.2
  exact ⟨first, again different, apart, crossed, same.symm.trans crossed, count.symm⟩

end MidIR
