import MidIR.Proofs.Graph.DepthFirst

set_option autoImplicit false

namespace MidIR

-- Near are the labels that the search can meet: those asked for, and those that jumps name.
structure BlockTable.Carries (table other : BlockTable) (f : Label → Label) (near : Label → Prop) : Prop where
  apart : ∀ a b, near a → near b → f a = f b → a = b
  present : ∀ label, near label → (f label ∈ other.labels ↔ label ∈ table.labels)
  successors : ∀ label, near label → label ∈ table.labels →
    other.successors (f label) = (table.successors label).map f
  onward : ∀ label, near label → label ∈ table.labels → ∀ target ∈ table.successors label, near target

def Search.relabel (f : Label → Label) (search : Search) : Search :=
  ⟨search.entered.map f, search.finished.map f⟩

theorem enter_relabel (f : Label → Label) (label : Label) (search : Search) :
    (search.enter label).relabel f = (search.relabel f).enter (f label) := rfl

theorem leave_relabel (f : Label → Label) (label : Label) (search : Search) :
    (search.leave label).relabel f = (search.relabel f).leave (f label) := by
  simp [Search.leave, Search.relabel]

section Carries

variable {table other : BlockTable} {f : Label → Label} {near : Label → Prop} (carries : table.Carries other f near)

include carries

theorem carried_unseen_iff (search : Search) (entered : ∀ label ∈ search.entered, near label) (label : Label)
    (here : near label) : f label ∈ other.unseen (search.relabel f) ↔ label ∈ table.unseen search := by
  have seen : f label ∈ (search.relabel f).entered ↔ label ∈ search.entered := by
    rw [Search.relabel, List.mem_map]
    constructor
    · rintro ⟨before, member, same⟩
      exact carries.apart before label (entered before member) here same ▸ member
    · exact fun member => ⟨label, member, rfl⟩
  rw [unseen_iff, unseen_iff, carries.present label here, seen]

theorem carried_explore (names : List Label) (search : Search) (asked : ∀ label ∈ names, near label)
    (entered : ∀ label ∈ search.entered, near label) :
    (other.explore (names.map f) (search.relabel f)).1 = (table.explore names search).1.relabel f := by
  -- What has been entered by the end is near as well, and that serves the next label in turn.
  suffices both : (other.explore (names.map f) (search.relabel f)).1 = (table.explore names search).1.relabel f ∧
      ∀ label ∈ (table.explore names search).1.entered, near label from both.1
  revert asked entered
  refine explore_induction table (fun names search after =>
    (∀ label ∈ names, near label) → (∀ label ∈ search.entered, near label) →
      (other.explore (names.map f) (search.relabel f)).1 = after.relabel f ∧
        ∀ label ∈ after.entered, near label) ?_ ?_ ?_ names search
  · intro search _ entered
    exact ⟨explore_nil other _, entered⟩
  · intro label rest search after seen later asked entered
    obtain ⟨here, others⟩ := List.forall_mem_cons.mp asked
    have passed := (carried_unseen_iff carries search entered label here).not.mpr seen
    rw [List.map_cons, explore_seen other _ _ _ passed]
    exact later others entered
  · intro label rest search inner after fresh _ further later asked entered
    obtain ⟨here, others⟩ := List.forall_mem_cons.mp asked
    have present := ((unseen_iff table search label).mp fresh).1
    obtain ⟨inward, inside⟩ := further (carries.onward label here present)
      (List.forall_mem_cons.mpr ⟨here, entered⟩)
    rw [List.map_cons, explore_fresh other _ _ _ ((carried_unseen_iff carries search entered label here).mpr fresh),
      carries.successors label here present, ← enter_relabel, inward, ← leave_relabel]
    exact later others inside

theorem carried_depth_first (entry : Label) (here : near entry) :
    other.depthFirst (f entry) = (table.depthFirst entry).map f := by
  have carried := carried_explore carries [entry] .start (by simpa using here) (by simp [Search.start])
  exact congrArg Search.finished carried

end Carries

end MidIR
