import Mathlib.Data.List.Forall2
import MidIR.Listing
import MidIR.Proofs.Op.Text
import MidIR.Proofs.Table.History

set_option autoImplicit false

namespace MidIR

-- The same kind and the same details, with temporaries for operands. Lists of operands may differ in
-- length where no key or flag goes with each operand.
structure Op.Varies (a b : Op) : Prop where
  kind : a.kind = b.kind
  details : a.details = b.details
  temps : OnlyTemps a.held
  others : OnlyTemps b.held

def Instr.Varies (a b : Instr) : Prop := a = b ∨ a.place = b.place ∧ a.op.Varies b.op

structure Block.Varies (a b : Block) : Prop where
  label : a.label = b.label
  instrs : List.Forall₂ Instr.Varies a.instrs b.instrs

structure Body.Varies (a b : Body) : Prop where
  file : a.file = b.file
  place : a.place = b.place
  varNames : a.varNames = b.varNames
  blocks : ∃ s t, a.payload = .blocks s ∧ b.payload = .blocks t ∧ List.Forall₂ Block.Varies s.blocks t.blocks

theorem op_varies_told (a b : Op) (varies : a.Varies b) (same : a.text = b.text) : a = b :=
  op_text_told a b varies.kind varies.details varies.temps varies.others same

theorem instr_varies_told (a b : Instr) (varies : a.Varies b) (same : a.text = b.text) : a = b := by
  cases varies with
  | inl equal => exact equal
  | inr differ =>
      obtain ⟨places, ops⟩ := differ
      have equal := op_varies_told a.op b.op ops same
      cases a
      cases b
      exact congrArg₂ Instr.mk places equal

theorem varied_list_told {α β : Type} (Varies : α → α → Prop) (view : α → β)
    (told : ∀ a b, Varies a b → view a = view b → a = b) (as bs : List α) (varies : List.Forall₂ Varies as bs)
    (same : as.map view = bs.map view) : as = bs := by
  induction varies with
  | nil => rfl
  | cons first _ ih =>
      obtain ⟨head, tail⟩ := List.cons.inj same
      exact congrArg₂ List.cons (told _ _ first head) (ih tail)

theorem block_varies_told (a b : Block) (varies : a.Varies b) (same : a.listing = b.listing) : a = b := by
  have texts : a.instrs.map Instr.text = b.instrs.map Instr.text := congrArg BlockListing.texts same
  have instrs := varied_list_told Instr.Varies Instr.text instr_varies_told a.instrs b.instrs varies.instrs texts
  have labels := varies.label
  cases a
  cases b
  exact congrArg₂ Block.mk labels instrs

theorem body_varies_told (a b : Body) (builtA : a.Built) (builtB : b.Built) (varies : a.Varies b)
    (same : a.listing = b.listing) : a = b := by
  obtain ⟨s, t, contentA, contentB, blocks⟩ := varies.blocks
  have records : s.blocks.map Block.listing = t.blocks.map Block.listing := by
    simpa [Body.listing, contentA, contentB] using same
  have equal := varied_list_told Block.Varies Block.listing block_varies_told s.blocks t.blocks blocks records
  have tables : s = t := (indexed_eq_iff s t (built_indexed s (builtA s contentA))
    (built_indexed t (builtB t contentB))).mpr equal
  have payload : a.payload = b.payload := by rw [contentA, contentB, tables]
  obtain ⟨file, place, varNames, -⟩ := varies
  cases a
  cases b
  cases file
  cases place
  cases varNames
  cases payload
  rfl

theorem texts_show_temps :
    (∀ a b : Op, a.kind = b.kind → a.details = b.details → OnlyTemps a.held → OnlyTemps b.held →
        a.text = b.text → a = b) ∧
      ∀ a b : Body, a.Built → b.Built → a.Varies b → a ≠ b → a.listing ≠ b.listing :=
  ⟨op_text_told, fun a b builtA builtB varies different same =>
    different (body_varies_told a b builtA builtB varies same)⟩

-- A method is called without a receiver and with one, and the key of a field reads like a field.
theorem lookalike_temps_told_apart :
    let field (t : Temp) : Op := .assign t (.record [("y=#tmp_1, x", .temp t)])
    let blocks (args : List Operand) : List Block :=
      [⟨.entry, [⟨.synthetic, .assign ⟨2⟩ (.call (.virtual ⟨"run"⟩) args)⟩, ⟨.synthetic, .jump .exit⟩]⟩, ⟨.exit, []⟩]
    let body (args : List Operand) : Body := ⟨"twin.src", .synthetic, ∅, .blocks (.ofList (blocks args))⟩
    (field ⟨1⟩).kind = (field ⟨12⟩).kind ∧ (field ⟨1⟩).details = (field ⟨12⟩).details ∧
      OnlyTemps (field ⟨1⟩).held ∧ OnlyTemps (field ⟨12⟩).held ∧ (field ⟨1⟩).text ≠ (field ⟨12⟩).text ∧
      (body []).Built ∧ (body [.temp ⟨1⟩]).Built ∧ (body []).Varies (body [.temp ⟨1⟩]) ∧
      body [] ≠ body [.temp ⟨1⟩] ∧ (body []).listing ≠ (body [.temp ⟨1⟩]).listing := by
  intro field blocks body
  have temps (t : Temp) : OnlyTemps [.temp t] := by simp [OnlyTemps, Operand.IsTemp]
  have kept (args : List Operand) := of_list_blocks (blocks args) (show [Label.entry, .exit].Nodup by decide)
  have built (args : List Operand) : (body args).Built := of_list_body_built _ _ _ _
  have calls : Instr.Varies ⟨.synthetic, .assign ⟨2⟩ (.call (.virtual ⟨"run"⟩) [])⟩
      ⟨.synthetic, .assign ⟨2⟩ (.call (.virtual ⟨"run"⟩) [.temp ⟨1⟩])⟩ :=
    Or.inr ⟨rfl, rfl, rfl, by simp [OnlyTemps, Op.held, Value.held, Value.reads], temps ⟨1⟩⟩
  have varies : (body []).Varies (body [.temp ⟨1⟩]) := by
    refine ⟨rfl, rfl, rfl, _, _, rfl, rfl, ?_⟩
    rw [kept, kept]
    exact .cons ⟨rfl, .cons calls (.cons (Or.inl rfl) .nil)⟩ (.cons ⟨rfl, .nil⟩ .nil)
  have differ : body [] ≠ body [.temp ⟨1⟩] := by
    intro same
    have equal := congrArg BlockTable.blocks (Payload.blocks.inj (congrArg Body.payload same))
    rw [kept, kept] at equal
    exact absurd equal (by decide)
  obtain ⟨ops, bodies⟩ := texts_show_temps
  refine ⟨rfl, rfl, temps ⟨1⟩, temps ⟨12⟩, ?_, built _, built _, varies, differ,
    bodies _ _ (built _) (built _) varies differ⟩
  intro same
  have equal := ops (field ⟨1⟩) (field ⟨12⟩) rfl rfl (temps ⟨1⟩) (temps ⟨12⟩) same
  exact absurd equal (by decide)

end MidIR
