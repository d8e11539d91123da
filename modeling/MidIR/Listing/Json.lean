import MidIR.Listing
import MidIR.Text.Decimal
import MidIR.Text.Quoted

set_option autoImplicit false

namespace MidIR

-- The lines of the array itself are indented by `indent`.
def jsonArray (indent : String) (elements : List String) : String :=
  if elements = [] then "[]"
  else
    let inner := "\n  " ++ indent
    "[" ++ inner ++ ("," ++ inner).intercalate elements ++ "\n" ++ indent ++ "]"

def jsonInt : Int → String
  | .ofNat n => decimal n
  | .negSucc n => "-" ++ decimal (n + 1)

def BlockListing.json (record : BlockListing) : String :=
  "\x7b\n    \"label\": " ++ quote record.label
    ++ ",\n    \"line\": " ++ jsonInt record.line
    ++ ",\n    \"ops\": " ++ jsonArray "    " (record.texts.map quote)
    ++ "\n  \x7d"

-- The form that printers of listings are documented to write. Nothing here writes it for a body:
-- the printer is supplied from outside.
def Listing.json : Listing → String
  | .marker text => quote text
  | .blocks records => jsonArray "" (records.map BlockListing.json)

def PrintsPretty {ε : Type} (print : Listing → Except ε String) : Prop :=
  ∀ listing, print listing = .ok listing.json

-- Fails if the printer does, with the printer's own error.
def Body.toJson {ε : Type} (print : Listing → Except ε String) (body : Body) : Except ε String := do
  let text ← print body.listing
  return text

end MidIR
