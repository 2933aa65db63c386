import FlowScript.Value.Slot
import FlowScript.Yaml.Assembly
import FlowScript.Yaml.Event.Stream
import FlowScript.Yaml.Token.Stream

/-!
# Documents from text

A part has a value as soon as all its members have one, and so the values of a document are found from
the innermost parts outward. What is left has no end: it is unrolled to a fixed number of levels.
-/
namespace FlowScript.Yaml

/-- The value of a part whose members all have values. -/
def Part.value? (known : Nat → Option Value) : Part → Option Value
  | .scalar v => some v
  | .list items => do return .list (← items.mapM known)
  | .pairs entries => do
    return .list (← entries.mapM fun e => do return .tuple [← known e.1, ← known e.2])
  | .set members => do return .set (Value.slotOrder (← members.mapM known))
  | .map entries => do return .map (← entries.mapM fun e => do return (← known e.1, ← known e.2))

/-- The parts of a document and the values that are known of them. -/
structure Parts where
  parts : Array (Option Part)
  known : Array (Option Value)

namespace Parts

def part? (ps : Parts) (i : Nat) : Option Part := ps.parts[i]?.join

def known? (ps : Parts) (i : Nat) : Option Value := ps.known[i]?.join

/-- Finds the values of the parts whose members have values. -/
def advance (ps : Parts) : Parts :=
  { ps with known := ps.parts.mapIdx fun i part =>
      match ps.known? i with
      | some v => some v
      | none => part.bind (Part.value? ps.known?) }

def knownCount (ps : Parts) : Nat := ps.known.foldl (fun n v => if v.isSome then n + 1 else n) 0

/-- Finds values until no more can be found. -/
def settled : Nat → Parts → Parts
  | 0, ps => ps
  | n + 1, ps =>
    let next := ps.advance
    if next.knownCount == ps.knownCount then ps else settled n next

/-- The place where a part starts again. -/
def again (ps : Parts) (i : Nat) : Value :=
  match ps.part? i with
  | some (.map _) => .again true
  | _ => .again false

/-- A part as it is shown inside the given parts, where none of these is shown once more. -/
def outline (ps : Parts) : Nat → List Nat → Nat → Value
  | 0, _, i => ps.again i
  | n + 1, around, i =>
    match ps.known? i with
    | some v => v
    | none =>
      if around.contains i then ps.again i
      else ((ps.part? i).bind (Part.value? fun member =>
        some (outline ps n (i :: around) member))).getD .null

/-- The parts unrolled to the given number of levels, with their outlines. -/
def unrolled (ps : Parts) (outlines : Array Value) : Nat → Array Value
  | 0 => ps.parts.mapIdx fun i _ => (ps.known? i).getD (ps.again i)
  | n + 1 =>
    let inner := unrolled ps outlines n
    ps.parts.mapIdx fun i part =>
      match ps.known? i with
      | some v => v
      | none => .endless (outlines[i]?.getD .null)
          ((part.bind (Part.value? fun member => inner[member]?)).getD .null)

end Parts

/-- How many levels of a collection without end are unrolled. -/
def unrolledLevels : Nat := 1000

/-- The value of a document. -/
def Graph.value (graph : Graph) : Except Failure Value := do
  let parts ← graph.parts
  let ps := Parts.settled (parts.size + 1) ⟨parts, parts.map fun _ => none⟩
  match ps.known? graph.root with
  | some v => return v
  | none =>
    let outlines := parts.mapIdx fun i _ => ps.outline (parts.size + 1) [] i
    return ((ps.unrolled outlines unrolledLevels)[graph.root]?).getD .null

/-- The first character that no text may contain. -/
def firstUnacceptable (position : Nat) : List Char → Option Failure
  | [] => none
  | c :: rest =>
    if isAcceptable c then firstUnacceptable (position + 1) rest
    else some (.malformed (.unacceptable (Text.codeOf c) position) none)

/-- The document that a text holds; a text without one stands for null. -/
def load (text : String) : Except Failure Value := do
  let cs := text.toList
  match firstUnacceptable 0 cs with
  | some failure => throw failure
  | none =>
    match ← Graph.ofEvents (Event.stream (Token.stream cs)) with
    | none => return .null
    | some graph => graph.value

end FlowScript.Yaml
