import FlowScript.Fault
import FlowScript.Program.Code
import FlowScript.Value.Display

/-!
# Indentation

An indent is usually a text. Whatever else is given for it is repeated or multiplied in the same way:
a list is repeated, and a number is multiplied by the level.
-/
namespace FlowScript.Program

/-- The indentation that an indent gives. -/
def Margin.ofIndent : Value → Except Fault Margin
  | .text s => .ok (copies s)
  | .bool b => .ok fun level => Number.intText (if b then level else 0)
  | .int n => .ok fun level => Number.intText (n * level)
  | .float x _ => .ok fun level => Number.floatText .program (x * Float.ofInt level)
  | .list vs => .ok fun level => Value.display (.list (List.replicate level.toNat vs).flatten)
  | _ => .error .unusableIndent

/-- The lines of a block at a level; only a block that has lines needs an indent. -/
def Block.written (indent : Value) (level : Int) (block : Block) : Except Fault (List String) := do
  if block.isEmpty then return []
  return block.lines (← Margin.ofIndent indent) level

end FlowScript.Program
