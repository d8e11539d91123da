import MidIR.Op.Footprint
import MidIR.Proofs.Op.Details

set_option autoImplicit false

namespace MidIR

-- Variables that these read by name, and those that a closure captures, are storage.
def Kind.readsByName : Kind → Bool
  | .readCaptured | .readParameter | .readLocal | .lambda => true
  | _ => false

section Visitor

variable {σ : Type} (visit : Operand → StateM σ Operand)

-- The visitor, with a record of what it has met and what it has put in its place.
def recording (a : Operand) : StateM (σ × List (Operand × Operand)) Operand := do
  let (state, record) ← get
  let (answer, next) := (visit a).run state
  set (next, record ++ [(a, answer)])
  return answer

-- The visitor gave these answers one after the other, each in the state that the one before had left.
inductive Threads : σ → List (Operand × Operand) → σ → Prop where
  | done (state : σ) : Threads state [] state
  | call (state next last : σ) (a answer : Operand) (later : List (Operand × Operand))
      (answered : (visit a).run state = (answer, next)) (rest : Threads next later last) :
      Threads state ((a, answer) :: later) last

structure Visited (args answers : List Operand) (state last : σ) : Prop where
  plain : (args.mapM visit).run state = (answers, last)
  length : answers.length = args.length
  threads : Threads visit state (args.zip answers) last
  recorded : ∀ record, (args.mapM (recording visit)).run (state, record) = (answers, last, record ++ args.zip answers)

theorem recording_run (a : Operand) (state : σ) (record : List (Operand × Operand)) :
    (recording visit a).run (state, record) =
      (((visit a).run state).1, ((visit a).run state).2, record ++ [(a, ((visit a).run state).1)]) := rfl

-- By induction on the operands: the state that one answer leaves is the one that the rest starts with.
theorem visit_all (args : List Operand) (state : σ) : ∃ answers last, Visited visit args answers state last := by
  induction args generalizing state with
  | nil => exact ⟨[], state, rfl, rfl, .done state, fun record => congrArg (fun all => ([], state, all)) (by simp)⟩
  | cons a rest ih =>
      obtain ⟨answer, next, answered⟩ : ∃ answer next, (visit a).run state = (answer, next) := ⟨_, _, rfl⟩
      obtain ⟨answers, last, later⟩ := ih next
      refine ⟨answer :: answers, last, ?_, congrArg (· + 1) later.length,
        .call _ _ _ _ _ _ answered later.threads, fun record => ?_⟩
      · rw [List.mapM_cons, StateT.run_bind, answered]
        exact congrArg (fun result => (answer :: result.1, result.2)) later.plain
      · have recorded := later.recorded (record ++ [(a, answer)])
        rw [List.append_assoc] at recorded
        rw [List.mapM_cons, StateT.run_bind, recording_run, answered]
        exact congrArg (fun result => (answer :: result.1, result.2)) recorded

theorem visited_met (args answers : List Operand) (state last : σ) (visited : Visited visit args answers state last) :
    (args.zip answers).map Prod.fst = args :=
  List.map_fst_zip (Nat.le_of_eq visited.length.symm)

theorem visited_left (args answers : List Operand) (state last : σ) (visited : Visited visit args answers state last) :
    (args.zip answers).map Prod.snd = answers :=
  List.map_snd_zip (Nat.le_of_eq visited.length)

theorem op_visit_run (op : Op) (answers : List Operand) (state last : σ)
    (visited : Visited visit op.held answers state last) :
    (op.visitReads visit).run state = (op.refill answers, last) := by
  rw [op_visit, StateT.run_map, visited.plain]
  rfl

theorem op_visit_recorded (op : Op) (answers : List Operand) (state last : σ)
    (visited : Visited visit op.held answers state last) :
    (op.visitReads (recording visit)).run (state, []) = (op.refill answers, last, op.held.zip answers) := by
  rw [op_visit, StateT.run_map, visited.recorded]
  rfl

end Visitor

theorem value_held_by_kind (value : Value) :
    value.held = if value.kind.readsByName then [] else value.reads := by
  fun_cases Value.kind value <;> rfl

theorem op_held_by_kind (op : Op) : op.held = if op.kind.readsByName then [] else op.reads := by
  cases op with
  | assign target value => exact value_held_by_kind value
  | _ => rfl

theorem op_held_by_name (op : Op) (byName : op.kind.readsByName = true) : op.held = [] := by
  rw [op_held_by_kind, if_pos byName]

theorem op_held_plain (op : Op) (plain : op.kind.readsByName = false) : op.held = op.reads := by
  rw [op_held_by_kind, plain]
  rfl

theorem op_refill_reads (op : Op) (args : List Operand) (plain : op.kind.readsByName = false)
    (length : args.length = op.held.length) : (op.refill args).reads = args := by
  have kept : (op.refill args).kind.readsByName = false := by rw [op_refill_kind, plain]
  exact (op_held_plain (op.refill args) kept).symm.trans (op_refill_held op args length)

theorem op_map_reads (f : Operand → Operand) (op : Op) : op.mapReads f = op.refill (op.held.map f) := by
  rw [Op.mapReads, op_visit, Id.run_map, List.idRun_mapM]
  rfl

def Op.visited (op : Op) : List Operand :=
  ((op.visitReads (recording fun a => (pure a : StateM Unit Operand))).run ((), [])).2.2.map Prod.fst

theorem op_visited (op : Op) : op.visited = op.held := by
  obtain ⟨answers, last, visited⟩ := visit_all (fun a => (pure a : StateM Unit Operand)) op.held ()
  rw [Op.visited, op_visit_recorded _ op answers () last visited]
  exact visited_met _ op.held answers () last visited

theorem visit_traverses_reads (op : Op) :
    (∀ (σ : Type) (visit : Operand → StateM σ Operand) (state : σ), ∃ after last record,
        (op.visitReads visit).run state = (after, last) ∧
        (op.visitReads (recording visit)).run (state, []) = (after, last, record) ∧
        Threads visit state record last ∧
        (op.kind.readsByName = true → record = [] ∧ after = op) ∧
        (op.kind.readsByName = false → record.map Prod.fst = op.reads ∧ after.reads = record.map Prod.snd) ∧
        after.kind = op.kind ∧ after.target? = op.target? ∧ after.details = op.details ∧
        ((∀ pair ∈ record, pair.2 = pair.1) → after = op)) ∧
      ∀ g h : Operand → Operand, (op.mapReads g).mapReads h = op.mapReads (h ∘ g) := by
  constructor
  · intro σ visit state
    obtain ⟨answers, last, visited⟩ := visit_all visit op.held state
    have met := visited_met visit op.held answers state last visited
    have left := visited_left visit op.held answers state last visited
    refine ⟨op.refill answers, last, op.held.zip answers, op_visit_run visit op answers state last visited,
      op_visit_recorded visit op answers state last visited, visited.threads, ?_, ?_, op_refill_kind op answers,
      op_refill_target op answers, op_refill_details op answers visited.length, ?_⟩
    · intro byName
      have nothing := op_held_by_name op byName
      have unanswered : answers = [] := List.length_eq_zero_iff.mp (visited.length.trans (congrArg List.length nothing))
      have own := op_refill_own op
      rw [nothing] at own
      rw [nothing, unanswered]
      exact ⟨rfl, own⟩
    · intro plain
      rw [met, left]
      exact ⟨op_held_plain op plain, op_refill_reads op answers plain visited.length⟩
    · intro unwritten
      have same : answers = op.held := by
        rw [← left]
        exact (List.map_congr_left unwritten).trans met
      rw [same, op_refill_own]
  · intro g h
    have length : (op.held.map g).length = op.held.length := List.length_map g
    rw [op_map_reads, op_map_reads, op_map_reads, op_refill_held op _ length, List.map_map]
    exact op_refill_twice op _ _ length (List.length_map (h ∘ g))

theorem shifted_update_traversed :
    let x := Operand.var .localVar "x"
    let y := Operand.temp Temp.first
    let nothing := Operand.constant .none
    let op : Op := .assign Temp.first (.updateMembers .field x [("b", y), ("a", x)])
    let after : Op := .assign Temp.first (.updateMembers .field nothing [("b", x), ("a", y)])
    let shift : Operand → StateM Operand Operand := fun a => do
      let previous ← get
      set a
      return previous
    op.kind.readsByName = false ∧ (op.visitReads shift).run nothing = (after, x) ∧
      Threads shift nothing [(x, nothing), (y, x), (x, y)] x ∧ after.reads = [nothing, x, y] ∧
      after.kind = op.kind ∧ after.details = op.details := by
  intro x y nothing op after shift
  obtain ⟨found, last, record, plain, recorded, threads, -, reads, kind, -, details, -⟩ :=
    (visit_traverses_reads op).1 Operand shift nothing
  have run : (op.visitReads shift).run nothing = (after, x) := rfl
  obtain ⟨rfl, rfl⟩ := Prod.mk.inj (run.symm.trans plain)
  have kept : (op.visitReads (recording shift)).run (nothing, []) =
      (after, x, [(x, nothing), (y, x), (x, y)]) := rfl
  obtain ⟨-, states⟩ := Prod.mk.inj (kept.symm.trans recorded)
  obtain ⟨-, rfl⟩ := Prod.mk.inj states
  exact ⟨rfl, run, threads, (reads rfl).2, kind, details⟩

end MidIR
