import MidIR.Body

set_option autoImplicit false

namespace MidIR

structure BlockListing where
  label : String
  line : Int
  texts : List String
deriving DecidableEq

inductive Listing where
  | marker (text : String)
  | blocks (records : List BlockListing)
deriving DecidableEq

def emptyBlockLine : Int := -1

def Block.listing (block : Block) : BlockListing where
  label := block.label.text
  line := (block.firstLine?.map fun line => (line.toNat : Int)).getD emptyBlockLine
  texts := block.instrs.map Instr.text

def Body.listing (body : Body) : Listing :=
  match body.payload with
  | .primitive marker => .marker marker
  | .blocks table => .blocks (table.blocks.map Block.listing)

end MidIR
