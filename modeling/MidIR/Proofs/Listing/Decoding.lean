import MidIR.Proofs.Listing.Reader
import MidIR.Proofs.Table.History

set_option autoImplicit false

namespace MidIR

def BlockListing.read : Reader BlockListing := fun input => do
  let rest ← input.dropPrefix? "\x7b\n    \"label\": ".toList
  let (label, rest) ← Reader.quoted rest
  let rest ← rest.dropPrefix? ",\n    \"line\": ".toList
  let (line, rest) ← Reader.integerBefore ",\n    \"ops\": " rest
  let (texts, rest) ← Reader.array "    " Reader.quoted rest
  let rest ← rest.dropPrefix? "\n  \x7d".toList
  return (⟨label, line, texts⟩, rest)

-- A text that begins with a quote is a marker, and no other is.
def Listing.read : Reader Listing := fun input =>
  if input.head? = some '"' then Reader.quoted.map Listing.marker input
  else (Reader.array "" BlockListing.read).map Listing.blocks input

def Listing.ofJson? (text : String) : Option Listing :=
  match Listing.read text.toList with
  | some (listing, []) => some listing
  | _ => none

theorem reads_record (record : BlockListing) : Reads BlockListing.read record.json.toList record := by
  intro rest
  -- Each piece with all that follows it, the way the reader comes to it.
  have pieces : record.json.toList ++ rest =
      "\x7b\n    \"label\": ".toList ++ ((quote record.label).toList ++
        (",\n    \"line\": ".toList ++ (((jsonInt record.line).toList ++ ",\n    \"ops\": ".toList) ++
          ((jsonArray "    " (record.texts.map quote)).toList ++ ("\n  \x7d".toList ++ rest))))) := by
    unfold BlockListing.json
    simp only [String.toList_append, List.append_assoc]
  have label := reads_quoted record.label
  have line := reads_integer ",\n    \"ops\": " (by decide) record.line
  have texts := reads_array Reader.quoted quote reads_quoted "    " record.texts
  rw [pieces]
  unfold BlockListing.read
  simp only [Option.bind_eq_bind, Option.bind_some, Option.pure_def, drop_prefix_append, label _, line _, texts _]

theorem json_array_head (indent : String) (elements : List String) :
    (jsonArray indent elements).toList.head? = some '[' := by
  unfold jsonArray
  split <;> simp

theorem reads_listing (listing : Listing) : Reads Listing.read listing.json.toList listing := by
  intro rest
  cases listing with
  | marker text =>
      have head : ((quote text).toList ++ rest).head? = some '"' := by simp [quote_to_list]
      have read := reads_map Listing.marker _ _ text (reads_quoted text) rest
      rw [Listing.json, Listing.read, if_pos head]
      exact read
  | blocks records =>
      have head : ((jsonArray "" (records.map BlockListing.json)).toList ++ rest).head? = some '[' := by
        simp [List.head?_append, json_array_head]
      have other : ((jsonArray "" (records.map BlockListing.json)).toList ++ rest).head? ≠ some '"' := by
        rw [head]
        decide
      have read := reads_map Listing.blocks _ _ records
        (reads_array BlockListing.read BlockListing.json reads_record "" records) rest
      rw [Listing.json, Listing.read, if_neg other]
      exact read

theorem of_json_listing (listing : Listing) : Listing.ofJson? listing.json = some listing := by
  have read := reads_listing listing []
  rw [List.append_nil] at read
  rw [Listing.ofJson?, read]

theorem listing_json_injective (a b : Listing) (same : a.json = b.json) : a = b := by
  have decoded := congrArg Listing.ofJson? same
  rw [of_json_listing, of_json_listing] at decoded
  exact Option.some.inj decoded

theorem listing_primitive_iff (body : Body) :
    body.isPrimitive = true ↔ ∃ marker, body.listing = .marker marker := by
  cases content : body.payload with
  | primitive marker => simp [Body.isPrimitive, Body.table?, Body.listing, content]
  | blocks table => simp [Body.isPrimitive, Body.table?, Body.listing, content]

section Printer

variable {ε : Type} (print : Listing → Except ε String) (pretty : PrintsPretty print)

include pretty

theorem to_json_ok (body : Body) : body.toJson print = .ok body.listing.json := by
  rw [Body.toJson, pretty]

theorem to_json_eq_iff (a b : Body) : a.toJson print = b.toJson print ↔ a.listing = b.listing := by
  rw [to_json_ok print pretty, to_json_ok print pretty]
  constructor
  · intro same
    exact listing_json_injective _ _ (Except.ok.inj same)
  · intro same
    rw [same]

end Printer

theorem json_loses_nothing {ε : Type} (print : Listing → Except ε String) (pretty : PrintsPretty print) :
    (∀ body : Body, ∃ text, body.toJson print = .ok text ∧ Listing.ofJson? text = some body.listing) ∧
      (∀ a b : Body, a.toJson print = b.toJson print ↔ a.listing = b.listing) ∧
      ∀ a b : Body, a.isPrimitive = true → b.isPrimitive = false → a.toJson print ≠ b.toJson print := by
  refine ⟨fun body => ⟨body.listing.json, to_json_ok print pretty body, of_json_listing body.listing⟩,
    to_json_eq_iff print pretty, ?_⟩
  intro a b primitive blocks same
  obtain ⟨marker, listing⟩ := (listing_primitive_iff a).mp primitive
  rw [(to_json_eq_iff print pretty a b).mp same] at listing
  have also : b.isPrimitive = true := (listing_primitive_iff b).mpr ⟨marker, listing⟩
  rw [blocks] at also
  cases also

-- The marker is the very text of the body that it imitates, quotes and line breaks included.
theorem imitating_marker_told_apart :
    let print : Listing → Except String String := fun listing => .ok listing.json
    let text := "[\n  \x7b\n    \"label\": \"entry\",\n    \"line\": -1,\n    \"ops\": []\n  \x7d\n]"
    let body : Body := ⟨"plain.src", .synthetic, ∅, .blocks (.ofList [⟨.entry, []⟩])⟩
    let imitation : Body := ⟨"plain.src", .synthetic, ∅, .primitive text⟩
    PrintsPretty print ∧ imitation.isPrimitive = true ∧ body.isPrimitive = false ∧
      body.toJson print = .ok text ∧ Listing.ofJson? text = some (.blocks [⟨"entry", -1, []⟩]) ∧
      imitation.toJson print ≠ body.toJson print ∧
      ∃ quoted, imitation.toJson print = .ok quoted ∧ Listing.ofJson? quoted = some (.marker text) := by
  intro print text body imitation
  have blocks := of_list_blocks [⟨.entry, []⟩] (by decide)
  have listing : body.listing = .blocks [⟨"entry", -1, []⟩] := by
    simp only [body, Body.listing, blocks]
    rfl
  have printed : (Listing.blocks [⟨"entry", -1, []⟩]).json = text := by decide +kernel
  have pretty : PrintsPretty print := fun _ => rfl
  have written : body.toJson print = .ok text := by
    rw [to_json_ok print pretty, listing, printed]
  obtain ⟨decoded, -, apart⟩ := json_loses_nothing print pretty
  obtain ⟨same, wrote, read⟩ := decoded body
  rw [written] at wrote
  cases wrote
  rw [listing] at read
  exact ⟨pretty, rfl, rfl, written, read, apart imitation body rfl rfl, decoded imitation⟩

end MidIR
