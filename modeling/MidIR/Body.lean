import Std.Data.ExtTreeSet
import MidIR.BlockTable
import MidIR.Temp.Supply

set_option autoImplicit false

namespace MidIR

inductive Payload where
  | primitive (marker : String)
  | blocks (table : BlockTable)
deriving DecidableEq

structure Body where
  file : String
  place : Location
  varNames : Std.ExtTreeSet String
  payload : Payload
deriving DecidableEq

namespace Body

def table? (body : Body) : Option BlockTable :=
  match body.payload with
  | .primitive _ => none
  | .blocks table => some table

def isPrimitive (body : Body) : Bool := body.table?.isNone

def maxTemp? (body : Body) : Option Temp :=
  match body.payload with
  | .primitive _ => none
  | .blocks table => (table.blocks.filterMap Block.maxTemp?).max?

def tempSupply (body : Body) : TempSupply := .after body.maxTemp?

-- Without a temporary left, or without the block, the body stays as it is.
def appendFresh (label : Label) (build : Temp → Instr) (body : Body) : Option Temp × Body :=
  match body.payload with
  | .primitive _ => (none, body)
  | .blocks table =>
      match body.tempSupply.fresh.1 with
      | some t =>
          if table.contains label then
            (some t, { body with payload := .blocks (table.edit label (· ++ [build t])) })
          else
            (none, body)
      | none => (none, body)

def text (body : Body) : String :=
  let header := "body " ++ body.file ++ ":" ++ body.place.text
  match body.payload with
  | .primitive marker => header ++ " = primitive " ++ marker ++ "\n"
  | .blocks table =>
      let names := body.varNames.toList
      let varLine :=
        if names = [] then ""
        else "vars:" ++ String.join (names.map fun name => " " ++ name) ++ "\n"
      header ++ "\n" ++ varLine ++ String.join (table.blocks.map Block.text)

end Body

end MidIR
