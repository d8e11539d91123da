import MidIR.Proofs.Table.Plain
import MidIR.Proofs.Temp.Freshness

set_option autoImplicit false

namespace MidIR

structure Instr.Defines (instr : Instr) (t : Temp) : Prop where
  target : instr.op.target? = some t
  reads : ∀ u, .temp u ∉ instr.op.reads

-- Where an instruction goes, and which one it is once its register is known.
structure Definition where
  label : Label
  build : Temp → Instr

def Body.grow : List Definition → Body → List (Option Temp) × Body
  | [], body => ([], body)
  | definition :: rest, body =>
      let (answer, next) := body.appendFresh definition.label definition.build
      let (answers, last) := grow rest next
      (answer :: answers, last)

def Body.Holds (body : Body) (labels : List Label) : Prop :=
  ∃ table, body.payload = .blocks table ∧ table.Indexed ∧ table.labels = labels

structure Definition.Fits (definition : Definition) (labels : List Label) : Prop where
  present : definition.label ∈ labels
  defines : ∀ t, (definition.build t).Defines t

theorem defines_temps (instr : Instr) (t : Temp) (defines : instr.Defines t) : instr.op.temps = [t] := by
  have silent : instr.op.reads.filterMap Operand.temp? = [] := by
    rw [List.filterMap_eq_nil_iff]
    intro a read
    cases found : a.temp? with
    | none => rfl
    | some u =>
        obtain rfl := (operand_temp_some_iff a u).mp found
        exact absurd read (defines.reads u)
  rw [Op.temps, defines.target, silent]
  rfl

theorem appended_temps (block : Block) (instr : Instr) :
    Block.temps { block with instrs := block.instrs ++ [instr] } = block.temps ++ instr.op.temps := by
  simp [Block.temps]

theorem append_mentions (body : Body) (table : BlockTable) (content : body.payload = .blocks table)
    (indexed : table.Indexed) (label : Label) (present : label ∈ table.labels) (instr : Instr) (t u : Temp)
    (defines : instr.Defines t) :
    Body.Mentions { body with payload := .blocks (table.edit label (· ++ [instr])) } u ↔ body.Mentions u ∨ u = t := by
  rw [mentions_iff _ _ rfl, mentions_iff body table content, edit_blocks table indexed, changeBlock]
  simp only [List.mem_map, exists_exists_and_eq_and]
  constructor
  · rintro ⟨block, member, listed⟩
    by_cases here : block.label = label
    · rw [if_pos here, appended_temps, List.mem_append, defines_temps instr t defines, List.mem_singleton] at listed
      exact listed.imp_left fun before => ⟨block, member, before⟩
    · rw [if_neg here] at listed
      exact Or.inl ⟨block, member, listed⟩
  · rintro (⟨block, member, listed⟩ | rfl)
    · refine ⟨block, member, ?_⟩
      by_cases here : block.label = label
      · rw [if_pos here, appended_temps]
        exact List.mem_append_left _ listed
      · rwa [if_neg here]
    · obtain ⟨block, member, here⟩ := List.mem_map.mp present
      refine ⟨block, member, ?_⟩
      rw [if_pos here, appended_temps, defines_temps instr u defines]
      exact List.mem_append_right _ List.mem_cons_self

theorem max_temp_some_iff (body : Body) (highest : Temp) :
    body.maxTemp? = some highest ↔ body.Mentions highest ∧ ∀ t, body.Mentions t → t ≤ highest := by
  constructor
  · exact highest_max_temp body highest
  · intro ⟨mentioned, top⟩
    cases found : body.maxTemp? with
    | none => exact absurd mentioned (unused_max_temp body found highest)
    | some other =>
        obtain ⟨also, above⟩ := highest_max_temp body other found
        exact congrArg some (Std.le_antisymm (top other also) (above highest mentioned))

theorem fresh_above (body : Body) (t u : Temp) (taken : body.tempSupply.fresh.1 = some t)
    (mentioned : body.Mentions u) : u ≤ t := by
  have below := first_free_above body _ (supply_first_free body) u mentioned
  have start := taken_number 1 body.tempSupply t (by simp [TempSupply.take, taken])
  exact UInt32.le_iff_toNat_le.mpr (Nat.le_of_lt (Nat.lt_of_lt_of_le below start))

section Step

variable (labels : List Label) (body : Body) (holds : body.Holds labels) (definition : Definition)
  (fits : definition.Fits labels)

include holds

theorem append_fresh_exhausted (gone : body.tempSupply.fresh.1 = none) :
    body.appendFresh definition.label definition.build = (none, body) := by
  obtain ⟨table, content, -⟩ := holds
  simp only [Body.appendFresh, content, gone]

include fits

theorem append_fresh_taken (t : Temp) (taken : body.tempSupply.fresh.1 = some t) :
    ∃ table, body.payload = .blocks table ∧ table.Indexed ∧ table.labels = labels ∧
      body.appendFresh definition.label definition.build =
        (some t, { body with payload := .blocks (table.edit definition.label (· ++ [definition.build t])) }) := by
  obtain ⟨table, content, indexed, rfl⟩ := holds
  have present := (indexed_contains_iff table indexed _).mpr fits.present
  refine ⟨table, content, indexed, rfl, ?_⟩
  simp only [Body.appendFresh, content, taken, present, if_true]

theorem append_fresh_max_temp (t : Temp) (taken : body.tempSupply.fresh.1 = some t) :
    (body.appendFresh definition.label definition.build).2.maxTemp? = some t := by
  obtain ⟨table, content, indexed, rfl, appended⟩ := append_fresh_taken labels body holds definition fits t taken
  have mentions := append_mentions body table content indexed definition.label fits.present (definition.build t) t
  rw [appended, max_temp_some_iff]
  refine ⟨(mentions t (fits.defines t)).mpr (Or.inr rfl), fun u mentioned => ?_⟩
  rcases (mentions u (fits.defines t)).mp mentioned with before | rfl
  · exact fresh_above body t u taken before
  · exact Std.le_refl u

theorem append_fresh_holds : (body.appendFresh definition.label definition.build).2.Holds labels := by
  cases taken : body.tempSupply.fresh.1 with
  | none =>
      rw [append_fresh_exhausted labels body holds definition taken]
      exact holds
  | some t =>
      obtain ⟨table, -, indexed, rfl, appended⟩ := append_fresh_taken labels body holds definition fits t taken
      rw [appended]
      exact ⟨_, rfl, edit_indexed _ _ table indexed, edit_view Block.label _ _ table fun _ => rfl⟩

-- A supply that is made anew goes on where the one before it stood.
theorem append_fresh_supply :
    (body.appendFresh definition.label definition.build).1 = body.tempSupply.fresh.1 ∧
      (body.appendFresh definition.label definition.build).2.tempSupply = body.tempSupply.fresh.2 := by
  cases taken : body.tempSupply.fresh.1 with
  | none =>
      rw [append_fresh_exhausted labels body holds definition taken,
        supply_fresh_exhausted body.tempSupply taken]
      exact ⟨rfl, rfl⟩
  | some t =>
      have top := append_fresh_max_temp labels body holds definition fits t taken
      have next : body.tempSupply.next = some t := taken
      obtain ⟨table, -, -, -, appended⟩ := append_fresh_taken labels body holds definition fits t taken
      refine ⟨congrArg Prod.fst appended, ?_⟩
      rw [Body.tempSupply, top, TempSupply.fresh, next]
      rfl

end Step

theorem grow_supply (labels : List Label) (definitions : List Definition) (body : Body) (holds : body.Holds labels)
    (fit : ∀ definition ∈ definitions, definition.Fits labels) :
    (body.grow definitions).2.Holds labels ∧
      (body.grow definitions).1 = (body.tempSupply.take definitions.length).1 := by
  induction definitions generalizing body with
  | nil => exact ⟨holds, rfl⟩
  | cons definition rest ih =>
      have fits := fit definition List.mem_cons_self
      have still := append_fresh_holds labels body holds definition fits
      obtain ⟨answer, supply⟩ := append_fresh_supply labels body holds definition fits
      obtain ⟨kept, answers⟩ := ih _ still fun other member => fit other (List.mem_cons_of_mem definition member)
      refine ⟨kept, ?_⟩
      rw [supply] at answers
      exact congrArg₂ List.cons answer answers

theorem exhausted_of_last (body : Body) (top : body.maxTemp? = some Temp.last) : body.tempSupply.fresh.1 = none := by
  rw [Body.tempSupply, top, TempSupply.after, temp_succ_last]
  rfl

theorem grow_exhausted (labels : List Label) (definitions : List Definition) (body : Body) (holds : body.Holds labels)
    (gone : body.tempSupply.fresh.1 = none) :
    body.grow definitions = (List.replicate definitions.length none, body) := by
  induction definitions with
  | nil => rfl
  | cons definition rest ih =>
      rw [Body.grow, append_fresh_exhausted labels body holds definition gone]
      simp only [ih]
      rfl

theorem growth_never_collides (body : Body) (table : BlockTable) (content : body.payload = .blocks table)
    (built : table.Built) (definitions : List Definition)
    (fit : ∀ definition ∈ definitions, definition.Fits table.labels) :
    let start := body.maxTemp?.elim 0 fun highest => highest.id.toNat + 1
    (body.grow definitions).1.map (Option.map fun t => t.id.toNat) =
        ((List.range definitions.length).map fun i => if start + i < UInt32.size then some (start + i) else none) ∧
      ((body.grow definitions).1.filterMap id).Nodup ∧
      (∀ t, some t ∈ (body.grow definitions).1 → ¬ body.Mentions t) ∧
      (∀ earlier definition later, definitions = earlier ++ definition :: later →
        ∀ t, ((body.grow earlier).2.appendFresh definition.label definition.build).1 = some t →
          ((body.grow earlier).2.appendFresh definition.label definition.build).2.maxTemp? = some t) ∧
      ∀ earlier later, definitions = earlier ++ later → (body.grow earlier).2.maxTemp? = some Temp.last →
        (body.grow earlier).2.grow later = (List.replicate later.length none, (body.grow earlier).2) := by
  intro start
  have holds : body.Holds table.labels := ⟨table, content, built_indexed table built, rfl⟩
  have count : body.tempSupply.count = start := by
    cases found : body.maxTemp? with
    | none => simp only [start, Body.tempSupply, found]; rfl
    | some highest => simp only [start, Body.tempSupply, found, TempSupply.after, temp_succ_count]; rfl
  obtain ⟨-, answers⟩ := grow_supply table.labels definitions body holds fit
  have reached : ∀ earlier later, definitions = earlier ++ later → (body.grow earlier).2.Holds table.labels := by
    rintro earlier later rfl
    exact (grow_supply table.labels earlier body holds fun other member =>
      fit other (List.mem_append_left later member)).1
  refine ⟨?_, ?_, ?_, ?_, ?_⟩
  · rw [answers, take_numbers, count]
    rfl
  · rw [answers]
    exact taken_nodup _ _
  · intro t obtained
    exact taken_unmentioned body _ t (answers ▸ obtained)
  · intro earlier definition later split t obtained
    have held := reached earlier (definition :: later) split
    have fits := fit definition (by simp [split])
    obtain ⟨answer, -⟩ := append_fresh_supply table.labels _ held definition fits
    exact append_fresh_max_temp table.labels _ held definition fits t (answer ▸ obtained)
  · intro earlier later split top
    exact grow_exhausted table.labels later _ (reached earlier later split) (exhausted_of_last _ top)

def nearlyFullBlocks : List Block :=
  [⟨.entry, [⟨.synthetic, .assign ⟨4294967293⟩ (.copy (.temp ⟨7⟩))⟩, ⟨.synthetic, .jump .exit⟩]⟩, ⟨.exit, []⟩]

-- Two registers are left, and the third definition gets none.
theorem nearly_full_body_grows :
    let table := BlockTable.ofList nearlyFullBlocks
    let body : Body := ⟨"full.src", .synthetic, ∅, .blocks table⟩
    let definitions : List Definition :=
      [⟨.exit, fun t => ⟨.synthetic, .assign t (.const .none)⟩⟩,
        ⟨.entry, fun t => ⟨.synthetic, .assign t (.lambda ⟨"f"⟩ ⟨"F"⟩ ["x"])⟩⟩,
        ⟨.exit, fun t => ⟨.synthetic, .assign t (.var .localVar "x")⟩⟩]
    body.payload = .blocks table ∧ table.Built ∧ (∀ definition ∈ definitions, definition.Fits table.labels) ∧
      (body.grow definitions).1.map (Option.map fun t => t.id.toNat) = [some 4294967294, some 4294967295, none] := by
  intro table body definitions
  have built : table.Built := .ofList nearlyFullBlocks
  have labels : table.labels = [.entry, .exit] := of_list_labels nearlyFullBlocks (by decide)
  have highest : body.maxTemp? = some ⟨4294967293⟩ := by
    simp only [Body.maxTemp?, body, table, of_list_blocks nearlyFullBlocks (by decide)]
    decide
  have fit : ∀ definition ∈ definitions, definition.Fits table.labels := by
    simp only [definitions, labels, List.forall_mem_cons]
    refine ⟨⟨by decide, fun t => ⟨rfl, ?_⟩⟩, ⟨by decide, fun t => ⟨rfl, ?_⟩⟩, ⟨by decide, fun t => ⟨rfl, ?_⟩⟩, by simp⟩ <;>
      simp [Op.reads, Value.reads]
  obtain ⟨numbers, -⟩ := growth_never_collides body table rfl built definitions fit
  rw [highest] at numbers
  exact ⟨rfl, built, fit, numbers⟩

end MidIR
