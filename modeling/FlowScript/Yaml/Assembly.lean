import FlowScript.Yaml.Merge
import FlowScript.Yaml.Scalar.Value

/-!
# What nodes stand for

The tag of a node decides what it stands for. A collection is noted when it is met and filled after the
collection around it is complete, level by level; of several faults the one on the highest level is
therefore reported. A node is looked at once, however often it is referred to.
-/
namespace FlowScript.Yaml

/-- What a node stands for: a value, or a collection of the nodes with the given numbers. -/
inductive Part where
  | scalar (v : Value)
  | list (items : List Nat)
  | pairs (entries : List (Nat × Nat))
  | set (members : List Nat)
  | map (entries : List (Nat × Nat))
deriving Inhabited

/-- The nodes, what is known of them, and the collections that are still to be filled, the last one
first. -/
structure Assembly where
  nodes : Nodes
  parts : Array (Option Part)
  waiting : List Nat := []

abbrev Assembling := StateT Assembly (Except Failure)

namespace Assembling

def nodeAt (i : Nat) : Assembling Node := do return (← get).nodes.node i

def settle (i : Nat) (part : Part) : Assembling Unit :=
  modify fun a => { a with parts := a.parts.setIfInBounds i (some part) }

/-- The text of a node; a mapping stands for the value under its default key. -/
def textOf (nodes : Nodes) : Nat → Nat → Except Failure String
  | 0, _ => .error .tooDeep
  | n + 1, i =>
    let node := nodes.node i
    match node.content with
    | .scalar text => .ok text
    | .mapping es =>
      match es.find? fun e => (nodes.node e.1).tag == Tags.value with
      | some e => textOf nodes n e.2
      | none => .error (.atMark (.expectedShape .scalar .mapping) node.start)
    | .sequence _ => .error (.atMark (.expectedShape .scalar .sequence) node.start)

/-- What a node stands for when it is met. A collection has no members yet. -/
def meet (i : Nat) (node : Node) : Meaning → Assembling Part
  | .list => do
    modify fun a => { a with waiting := i :: a.waiting }
    return .list []
  | .pairs => do
    modify fun a => { a with waiting := i :: a.waiting }
    return .pairs []
  | .set => do
    modify fun a => { a with waiting := i :: a.waiting }
    return .set []
  | .map => do
    modify fun a => { a with waiting := i :: a.waiting }
    return .map []
  | meaning => do
    let nodes := (← get).nodes
    let text ← textOf nodes (nodes.size + 1) i
    return .scalar (← scalarValue meaning i node.shape text node.start)

/-- What a node stands for. -/
def look (i : Nat) : Assembling Part := do
  match (← get).parts[i]?.join with
  | some part => return part
  | none =>
    let node ← nodeAt i
    match Meaning.ofTag? node.tag with
    | none => throw (.atMark (.unknownTag node.tag) node.start)
    | some meaning =>
      let part ← meet i node meaning
      settle i part
      return part

def sequenceItems (i : Nat) (problem : Shape → Problem) : Assembling (List Nat) := do
  let node ← nodeAt i
  match node.content with
  | .sequence items => return items
  | other => throw (.atMark (problem other.shape) node.start)

/-- The single entry of a pair. -/
def pairOf (i : Nat) : Assembling (Nat × Nat) := do
  let node ← nodeAt i
  match node.content with
  | .mapping [e] => return e
  | .mapping es => throw (.atMark (.pairSize es.length) node.start)
  | other => throw (.atMark (.pairNotMapping other.shape) node.start)

/-- The entries of a mapping after its merge keys are worked off. -/
def flattenedEntries (i : Nat) : Assembling (List (Nat × Nat)) := do
  let node ← nodeAt i
  if node.shape != .mapping then
    throw (.atMark (.expectedShape .mapping node.shape) node.start)
  let nodes ← liftM ((← get).nodes.flattened i)
  modify fun a => { a with nodes := nodes }
  return nodes.entries i

/-- The value of a key, which must not be a collection. -/
def keyOf (i : Nat) : Assembling Value := do
  match ← look i with
  | .scalar v => return v
  | _ => throw (.atMark .unhashableKey (← nodeAt i).start)

/-- A node for the key stays where its key first stood; the last value wins. -/
def insert (key : Value) (entry : Nat × Nat) :
    List (Value × Nat × Nat) → List (Value × Nat × Nat)
  | [] => [(key, entry)]
  | (k, old) :: rest =>
    if k.sameKey key then (k, old.1, entry.2) :: rest else (k, old) :: insert key entry rest

/-- The entries of a mapping, each key once. -/
def keyedEntries (i : Nat) : Assembling (List (Nat × Nat)) := do
  let keyed ← (← flattenedEntries i).mapM fun entry => do
    let key ← keyOf entry.1
    let _ ← look entry.2
    return (key, entry)
  return (keyed.foldl (fun acc e => insert e.1 e.2 acc) []).map (·.2)

/-- Fills a collection. -/
def fill (i : Nat) : Assembling Unit := do
  match (← get).parts[i]?.join with
  | some (.list _) =>
    let items ← sequenceItems i (.expectedShape .sequence)
    items.forM fun item => do let _ ← look item
    settle i (.list items)
  | some (.pairs _) =>
    let entries ← (← sequenceItems i .pairsNotSequence).mapM fun item => do
      let entry ← pairOf item
      let _ ← look entry.1
      let _ ← look entry.2
      return entry
    settle i (.pairs entries)
  | some (.set _) => settle i (.set ((← keyedEntries i).map (·.1)))
  | some (.map _) => settle i (.map (← keyedEntries i))
  | _ => return ()

/-- Fills collections level by level. -/
def fillAll : Nat → Assembling Unit
  | 0 => return ()
  | n + 1 => do
    let level := (← get).waiting.reverse
    if level.isEmpty then return ()
    modify fun a => { a with waiting := [] }
    level.forM fill
    fillAll n

end Assembling

/-- What the nodes of a document stand for. -/
def Graph.parts (graph : Graph) : Except Failure (Array (Option Part)) := do
  let assemble : Assembling Unit := do
    let _ ← Assembling.look graph.root
    Assembling.fillAll (graph.nodes.size + 1)
  let (_, assembly) ← assemble.run
    { nodes := graph.nodes, parts := graph.nodes.map fun _ => none }
  return assembly.parts

end FlowScript.Yaml
