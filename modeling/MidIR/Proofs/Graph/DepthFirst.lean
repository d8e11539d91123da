import MidIR.Proofs.Graph.Path

set_option autoImplicit false

namespace MidIR

-- What a search has entered, the latest first, and what it has left again, in the order of leaving.
structure Search where
  entered : List Label
  finished : List Label

namespace Search

def start : Search := ⟨[], []⟩

def enter (label : Label) (search : Search) : Search := { search with entered := label :: search.entered }

def leave (label : Label) (search : Search) : Search := { search with finished := search.finished ++ [label] }

end Search

def BlockTable.unseen (table : BlockTable) (search : Search) : List Label :=
  table.labels.filter fun label => label ∉ search.entered

theorem unseen_iff (table : BlockTable) (search : Search) (label : Label) :
    label ∈ table.unseen search ↔ label ∈ table.labels ∧ label ∉ search.entered := by
  simp [BlockTable.unseen]

theorem unseen_later (table : BlockTable) (search after : Search) (grown : search.entered ⊆ after.entered) :
    (table.unseen after).length ≤ (table.unseen search).length := by
  refine (List.monotone_filter_right table.labels fun label fresh => ?_).length_le
  rw [decide_eq_true_iff] at fresh ⊢
  exact fun member => fresh (grown member)

theorem unseen_enter (table : BlockTable) (search : Search) (label : Label)
    (fresh : label ∈ table.unseen search) :
    (table.unseen (search.enter label)).length < (table.unseen search).length := by
  have left : table.unseen (search.enter label) = (table.unseen search).filter fun other => other ≠ label := by
    rw [BlockTable.unseen, BlockTable.unseen, List.filter_filter]
    refine List.filter_congr fun other _ => ?_
    simp [Search.enter]
  rw [left, List.length_filter_lt_length_iff_exists]
  exact ⟨label, fresh, by simp⟩

-- Searches from each label in turn: enters its block, searches from what the block leads to, in that
-- order, and leaves it. A label that names no block, or one that was entered before, is passed over.
-- What was entered stays entered, and that bounds the recursion.
def BlockTable.explore (table : BlockTable) :
    List Label → (search : Search) → { after : Search // search.entered ⊆ after.entered }
  | [], search => ⟨search, List.Subset.refl _⟩
  | label :: rest, search =>
      if _fresh : label ∈ table.unseen search then
        let inner := table.explore (table.successors label) (search.enter label)
        let after := table.explore rest (inner.1.leave label)
        ⟨after.1, List.Subset.trans (List.subset_cons_self label _) (List.Subset.trans inner.2 after.2)⟩
      else
        table.explore rest search
termination_by names search => ((table.unseen search).length, names.length)
decreasing_by
  · exact Prod.Lex.left _ _ (unseen_enter table search label _fresh)
  · have fewer := unseen_enter table search label _fresh
    exact Prod.Lex.left _ _ (Nat.lt_of_le_of_lt (unseen_later table _ _ inner.2) fewer)
  · exact Prod.Lex.right _ (Nat.lt_succ_self _)

def BlockTable.depthFirst (table : BlockTable) (entry : Label) : List Label :=
  (table.explore [entry] .start).1.finished

theorem explore_nil (table : BlockTable) (search : Search) : (table.explore [] search).1 = search := by
  rw [BlockTable.explore]

theorem explore_seen (table : BlockTable) (label : Label) (rest : List Label) (search : Search)
    (seen : label ∉ table.unseen search) :
    (table.explore (label :: rest) search).1 = (table.explore rest search).1 := by
  rw [BlockTable.explore, dif_neg seen]

theorem explore_fresh (table : BlockTable) (label : Label) (rest : List Label) (search : Search)
    (fresh : label ∈ table.unseen search) :
    (table.explore (label :: rest) search).1 =
      (table.explore rest
        ((table.explore (table.successors label) (search.enter label)).1.leave label)).1 := by
  rw [BlockTable.explore, dif_pos fresh]

theorem explore_induction (table : BlockTable) (motive : List Label → Search → Search → Prop)
    (nil : ∀ search, motive [] search search)
    (seen : ∀ label rest search after, label ∉ table.unseen search → motive rest search after →
      motive (label :: rest) search after)
    (fresh : ∀ label rest search inner after, label ∈ table.unseen search →
      (search.enter label).entered ⊆ inner.entered →
      motive (table.successors label) (search.enter label) inner →
      motive rest (inner.leave label) after → motive (label :: rest) search after)
    (names : List Label) (search : Search) : motive names search (table.explore names search).1 := by
  fun_induction BlockTable.explore table names search with
  | case1 search => exact nil search
  | case2 label rest search unseen inner after innerHolds afterHolds =>
      exact fresh label rest search inner.1 after.1 unseen inner.2 innerHolds afterHolds
  | case3 label rest search unseen holds => exact seen label rest search _ unseen holds

-- In a list without repetition: the first label stands somewhere in front of the second.
def Precedes (order : List Label) (a b : Label) : Prop := [a, b].Sublist order

theorem precedes_across (front back : List Label) (a b : Label) (first : a ∈ front) (second : b ∈ back) :
    Precedes (front ++ back) a b :=
  (List.singleton_sublist.mpr first).append (List.singleton_sublist.mpr second)

theorem precedes_front (front back : List Label) (a b : Label) (before : Precedes front a b) :
    Precedes (front ++ back) a b :=
  before.trans (List.sublist_append_left front back)

theorem precedes_back (front back : List Label) (a b : Label) (before : Precedes back a b) :
    Precedes (front ++ back) a b :=
  before.trans (List.sublist_append_right front back)

-- What a search from some labels adds, after others have been seen.
structure BlockTable.Schedule (table : BlockTable) (names : List Label) (seen : Label → Prop)
    (order : List Label) : Prop where
  asked : ∀ label ∈ names, label ∈ table.labels → seen label ∨ label ∈ order
  reached : ∀ label ∈ order, ∃ name ∈ names, name ∈ table.labels ∧ table.Path name label
  edges : ∀ source ∈ order, ∀ target, table.Edge source target →
    seen target ∨ Precedes order target source ∨ table.Path target source
  sources : ∀ label ∈ order, label ∈ names ∨ ∃ source, table.Edge source label ∧ Precedes order label source

theorem schedule_nil (table : BlockTable) (seen : Label → Prop) : table.Schedule [] seen [] :=
  ⟨by simp, by simp, by simp, by simp⟩

theorem schedule_passed (table : BlockTable) (label : Label) (seen : Label → Prop)
    (passed : label ∈ table.labels → seen label) : table.Schedule [label] seen [] := by
  refine ⟨?_, by simp, by simp, by simp⟩
  intro name member present
  obtain rfl := List.mem_singleton.mp member
  exact Or.inl (passed present)

theorem schedule_entered (table : BlockTable) (indexed : table.Indexed) (label : Label)
    (present : label ∈ table.labels) (seen seenBelow : Label → Prop) (below : List Label)
    (grown : ∀ other, seenBelow other → seen other ∨ other = label)
    (further : table.Schedule (table.successors label) seenBelow below) :
    table.Schedule [label] seen (below ++ [label]) := by
  have edge : ∀ target, table.Edge label target ↔ target ∈ table.successors label ∧ target ∈ table.labels :=
    edge_iff_successor table indexed label
  have onward : ∀ other ∈ below, table.Path label other := by
    intro other member
    obtain ⟨name, named, inside, path⟩ := further.reached other member
    exact .head ((edge name).mpr ⟨named, inside⟩) path
  refine ⟨by simp, ?_, ?_, ?_⟩
  · intro other member
    refine ⟨label, List.mem_singleton_self label, present, ?_⟩
    rcases List.mem_append.mp member with earlier | last
    · exact onward other earlier
    · obtain rfl := List.mem_singleton.mp last
      exact .refl
  · intro source member target hop
    rcases List.mem_append.mp member with earlier | last
    · rcases further.edges source earlier target hop with before | first | loop
      · refine (grown target before).imp_right ?_
        rintro rfl
        exact Or.inr (onward source earlier)
      · exact Or.inr (Or.inl (precedes_front below [label] target source first))
      · exact Or.inr (Or.inr loop)
    · obtain rfl := List.mem_singleton.mp last
      obtain ⟨named, inside⟩ := (edge target).mp hop
      rcases further.asked target named inside with before | first
      · refine (grown target before).imp_right ?_
        rintro rfl
        exact Or.inr .refl
      · exact Or.inr (Or.inl (precedes_across below [source] target source first List.mem_cons_self))
  · intro other member
    rcases List.mem_append.mp member with earlier | last
    · refine Or.inr ?_
      rcases further.sources other earlier with named | ⟨source, hop, first⟩
      · obtain ⟨name, -, inside, path⟩ := further.reached other earlier
        refine ⟨label, (edge other).mpr ⟨named, path_present table name other inside path⟩, ?_⟩
        exact precedes_across below [label] other label earlier List.mem_cons_self
      · exact ⟨source, hop, precedes_front below [label] other source first⟩
    · exact Or.inl last

theorem schedule_append (table : BlockTable) (names others : List Label) (seen seenLater : Label → Prop)
    (order later : List Label) (grown : ∀ label, seenLater label → seen label ∨ label ∈ order)
    (first : table.Schedule names seen order) (second : table.Schedule others seenLater later) :
    table.Schedule (names ++ others) seen (order ++ later) := by
  refine ⟨?_, ?_, ?_, ?_⟩
  · intro label member present
    rw [List.mem_append]
    rcases List.mem_append.mp member with earlier | further
    · exact (first.asked label earlier present).imp_right Or.inl
    · rcases second.asked label further present with before | added
      · exact (grown label before).imp_right Or.inl
      · exact Or.inr (Or.inr added)
  · intro label member
    rcases List.mem_append.mp member with earlier | further
    · obtain ⟨name, asked, reaches⟩ := first.reached label earlier
      exact ⟨name, List.mem_append_left others asked, reaches⟩
    · obtain ⟨name, asked, reaches⟩ := second.reached label further
      exact ⟨name, List.mem_append_right names asked, reaches⟩
  · intro source member target hop
    rcases List.mem_append.mp member with earlier | further
    · refine (first.edges source earlier target hop).imp_right (Or.imp_left ?_)
      exact precedes_front order later target source
    · rcases second.edges source further target hop with before | ahead | loop
      · refine (grown target before).imp_right fun added => Or.inl ?_
        exact precedes_across order later target source added further
      · exact Or.inr (Or.inl (precedes_back order later target source ahead))
      · exact Or.inr (Or.inr loop)
  · intro label member
    rcases List.mem_append.mp member with earlier | further
    · refine (first.sources label earlier).imp (List.mem_append_left others) ?_
      exact fun ⟨source, hop, ahead⟩ => ⟨source, hop, precedes_front order later label source ahead⟩
    · refine (second.sources label further).imp (List.mem_append_right names) ?_
      exact fun ⟨source, hop, ahead⟩ => ⟨source, hop, precedes_back order later label source ahead⟩

def BlockTable.Adds (table : BlockTable) (names : List Label) (search after : Search) : Prop :=
  ∃ order, after.finished = search.finished ++ order ∧
    (∀ label, label ∈ after.entered ↔ label ∈ search.entered ∨ label ∈ order) ∧
    table.Schedule names (· ∈ search.entered) order

theorem adds_nothing (table : BlockTable) (search : Search) : table.Adds [] search search :=
  ⟨[], by simp, by simp, schedule_nil table _⟩

theorem adds_seen (table : BlockTable) (label : Label) (rest : List Label) (search after : Search)
    (seen : label ∉ table.unseen search) (later : table.Adds rest search after) :
    table.Adds (label :: rest) search after := by
  obtain ⟨order, finished, entered, schedule⟩ := later
  have passed : label ∈ table.labels → label ∈ search.entered := by
    simpa only [unseen_iff, not_and, not_not] using seen
  refine ⟨order, finished, entered, ?_⟩
  exact schedule_append table [label] rest _ _ [] order (fun _ => Or.inl)
    (schedule_passed table label _ passed) schedule

theorem adds_fresh (table : BlockTable) (indexed : table.Indexed) (label : Label) (rest : List Label)
    (search inner after : Search) (fresh : label ∈ table.unseen search)
    (further : table.Adds (table.successors label) (search.enter label) inner)
    (later : table.Adds rest (inner.leave label) after) : table.Adds (label :: rest) search after := by
  obtain ⟨below, innerFinished, innerEntered, innerSchedule⟩ := further
  obtain ⟨order, finished, entered, schedule⟩ := later
  have present := ((unseen_iff table search label).mp fresh).1
  have seen : ∀ other, other ∈ (inner.leave label).entered ↔
      other ∈ search.entered ∨ other ∈ below ++ [label] := by
    intro other
    rw [Search.leave, innerEntered, Search.enter, List.mem_cons, List.mem_append, List.mem_singleton]
    tauto
  refine ⟨below ++ [label] ++ order, ?_, ?_, ?_⟩
  · rw [finished, Search.leave, innerFinished]
    simp only [Search.enter, List.append_assoc]
  · intro other
    rw [entered, seen, or_assoc, ← List.mem_append]
  · have entering := schedule_entered table indexed label present (· ∈ search.entered) _ below
      (fun other member => (List.mem_cons.mp member).symm) innerSchedule
    exact schedule_append table [label] rest _ _ _ order (fun other => (seen other).mp) entering schedule

theorem explore_adds (table : BlockTable) (indexed : table.Indexed) (names : List Label) (search : Search) :
    table.Adds names search (table.explore names search).1 :=
  explore_induction table table.Adds (adds_nothing table) (adds_seen table)
    (fun label rest search inner after fresh _ => adds_fresh table indexed label rest search inner after fresh)
    names search

end MidIR
