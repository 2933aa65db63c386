import FlowScript.Fault
import FlowScript.Value.Display

/-!
# Values that can be written

An integer of too many digits has no text, and neither has a collection with such an integer in it.
-/
namespace FlowScript.Value

mutual

/-- Whether all integers inside a value can be written. -/
def isWritable : Value → Bool
  | .int n => Number.isWritable n
  | .list vs => areWritable vs
  | .tuple vs => areWritable vs
  | .set vs => areWritable vs
  | .map es => entriesWritable es
  | .endless outline _ => isWritable outline
  | _ => true

def areWritable : List Value → Bool
  | [] => true
  | v :: vs => isWritable v && areWritable vs

def entriesWritable : List (Value × Value) → Bool
  | [] => true
  | (k, v) :: es => isWritable k && isWritable v && entriesWritable es

end

/-- Refuses a value that cannot be written. -/
def checkWritable (v : Value) : Except Fault Unit :=
  if v.isWritable then .ok () else .error .integerTooLong

def writtenInt (n : Int) : Except Fault String :=
  if Number.isWritable n then .ok (Number.intText n) else .error .integerTooLong

/-- The text that a value displays, if it can be written. -/
def shown (v : Value) : Except Fault String := do
  v.checkWritable
  return v.display

/-- The program spelling of a value, if it can be written. -/
def spelled (v : Value) : Except Fault String := do
  v.checkWritable
  return v.literal

end FlowScript.Value
