import MidIR.Op.Kind
import MidIR.Key
import MidIR.Text.Decimal

set_option autoImplicit false

namespace MidIR

inductive Problem where
  | primitiveBody (file : String)
  | missingEntry (label : Label)
  | missingExit (label : Label)
  | emptyBlock (label : Label)
  | unterminated (label : Label) (last : Kind)
  | earlyTerminator (label : Label) (position : Nat) (kind : Kind)
  | danglingTarget (label : Label) (target : Label)
  | unreachable (label : Label) (entry : Label)
deriving DecidableEq

namespace Problem

def backquoted (name : String) : String := "`" ++ name ++ "`"

def message : Problem → String
  | .primitiveBody file => "body in " ++ backquoted file ++ " is primitive and has no blocks"
  | .missingEntry label => "entry block " ++ backquoted label.text ++ " is missing"
  | .missingExit label => "exit block " ++ backquoted label.text ++ " is missing"
  | .emptyBlock label => "block " ++ backquoted label.text ++ " has no instructions"
  | .unterminated label last =>
      "block " ++ backquoted label.text ++ " ends in " ++ backquoted last.name
        ++ " instead of a control transfer"
  | .earlyTerminator label position kind =>
      "block " ++ backquoted label.text ++ " has " ++ backquoted kind.name ++ " at position "
        ++ decimal position ++ ", before its end"
  | .danglingTarget label target =>
      "block " ++ backquoted label.text ++ " jumps to missing block " ++ backquoted target.text
  | .unreachable label entry =>
      "block " ++ backquoted label.text ++ " is unreachable from " ++ backquoted entry.text

def summary (problems : List Problem) : String :=
  "ill-formed MIR body (" ++ decimal problems.length ++ " problem(s)): "
    ++ "; ".intercalate (problems.map message)

end Problem

end MidIR
