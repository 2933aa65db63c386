import FlowScript.Value.Basic
import FlowScript.Yaml.Event.Basic
import FlowScript.Yaml.Resolution

/-!
# Nodes

The nodes of a document, each under its number and with its tag. An anchor and the references to it
stand for one node, and so a collection may be its own member.
-/
namespace FlowScript.Yaml

inductive Content where
  | scalar (text : String)
  | sequence (items : List Nat)
  | mapping (entries : List (Nat × Nat))
deriving Inhabited

structure Node where
  tag : String
  content : Content
  start : Mark
deriving Inhabited

def Content.shape : Content → Shape
  | .scalar _ => .scalar
  | .sequence _ => .sequence
  | .mapping _ => .mapping

def Node.shape (node : Node) : Shape := node.content.shape

/-- The nodes of a document by their numbers. -/
abbrev Nodes := Array Node

namespace Nodes

def node (nodes : Nodes) (i : Nat) : Node := nodes[i]?.getD default

/-- The entries of a mapping. -/
def entries (nodes : Nodes) (i : Nat) : List (Nat × Nat) :=
  match (nodes.node i).content with
  | .mapping es => es
  | _ => []

def setContent (nodes : Nodes) (i : Nat) (content : Content) : Nodes :=
  nodes.modify i fun node => { node with content := content }

def setTag (nodes : Nodes) (i : Nat) (tag : String) : Nodes :=
  nodes.modify i fun node => { node with tag := tag }

end Nodes

/-- What remains of the events, the nodes and the anchors seen so far. -/
structure Composer where
  events : List Event
  ending : Failure
  nodes : Nodes := #[]
  anchors : List (String × Nat) := []

abbrev Composing := StateT Composer (Except Failure)

namespace Composing

def peek : Composing Event := do
  let c ← get
  match c.events with
  | e :: _ => return e
  | [] => throw c.ending

def pop : Composing Event := do
  let e ← peek
  modify fun c => { c with events := c.events.tail }
  return e

/-- An anchor may be given only once. -/
def checkNew (anchor : Option String) (mark : Mark) : Composing Unit := do
  match anchor with
  | none => return ()
  | some a =>
    if ((← get).anchors.lookup a).isSome then throw (.atMark .repeatedAnchor mark)

/-- The tag as written; without one, or with the mark alone, the default holds. -/
def tagOr (written : Properties) (default : String) : String :=
  match written.tag with
  | none => default
  | some t => if t == "!" then default else t

/-- Adds a node, which its anchor names from here on. -/
def add (written : Properties) (node : Node) : Composing Nat := do
  checkNew written.anchor node.start
  let c ← get
  let number := c.nodes.size
  let named := written.anchor.toList.map fun a => (a, number)
  set { c with nodes := c.nodes.push node, anchors := named ++ c.anchors }
  return number

/-- Gives a collection its members. -/
def complete (number : Nat) (content : Content) : Composing Nat := do
  modify fun c => { c with nodes := c.nodes.setContent number content }
  return number

mutual

/-- The number of the next node, of which so many levels are gone through. -/
def node : Nat → Nat → Composing Nat
  | 0, _ => do throw (← get).ending
  | _, 0 => throw .tooDeep
  | n + 1, levels + 1 => do
    let e ← pop
    match e.kind with
    | .reference a =>
      match (← get).anchors.lookup a with
      | some found => return found
      | none => throw (.atMark (.unknownAnchor a) e.start)
    | .scalar written implicit text =>
      let found := tagOr written (if implicit then Tags.resolve text.toList else Tags.text)
      add written ⟨found, .scalar text, e.start⟩
    | .sequenceStart written =>
      let number ← add written ⟨tagOr written Tags.list, .sequence [], e.start⟩
      complete number (.sequence (← items n levels []))
    | .mappingStart written =>
      let number ← add written ⟨tagOr written Tags.map, .mapping [], e.start⟩
      complete number (.mapping (← entries n levels []))
    | _ => throw (← get).ending

/-- The items of a sequence behind those before, which are given from the last to the first. -/
def items : Nat → Nat → List Nat → Composing (List Nat)
  | 0, _, before => return before.reverse
  | n + 1, levels, before => do
    if (← peek).kind == .sequenceEnd then
      let _ ← pop
      return before.reverse
    let item ← node n levels
    items n levels (item :: before)

/-- The entries of a mapping behind those before, which are given from the last to the first. -/
def entries : Nat → Nat → List (Nat × Nat) → Composing (List (Nat × Nat))
  | 0, _, before => return before.reverse
  | n + 1, levels, before => do
    if (← peek).kind == .mappingEnd then
      let _ ← pop
      return before.reverse
    let key ← node n levels
    let value ← node n levels
    entries n levels ((key, value) :: before)

end

/-- The number of the root of the only document of a stream, if there is one. -/
def single (budget : Nat) : Composing (Option Nat) := do
  let _ ← pop
  if (← peek).kind == .streamEnd then return none
  let _ ← pop
  let root ← node budget (Value.maxNesting + 1)
  let _ ← pop
  let e ← peek
  if e.kind == .streamEnd then return some root
  throw (.atMark .secondDocument e.start)

end Composing

/-- The nodes of a document and the number of its root. -/
structure Graph where
  nodes : Nodes
  root : Nat

/-- The document that events describe. -/
def Graph.ofEvents (events : Stream Event) : Except Failure (Option Graph) := do
  let (root, composer) ← (Composing.single (events.items.length + 1)).run
    { events := events.items, ending := events.ending }
  return root.map fun number => ⟨composer.nodes, number⟩

end FlowScript.Yaml
