import FlowScript.Yaml.Node

/-!
# Merge keys

Before a mapping is used its merge keys are worked off: each is taken out, and the entries of the
mappings it names are put in front. This changes the node itself and the nodes that it merges, and so
every later use of them sees the merged entries. A mapping may even merge itself, because the merge key
is gone before its own entries are asked for.
-/
namespace FlowScript.Yaml

abbrev Merging := StateT Nodes (Except Failure)

namespace Merging

/-- Takes the first merge key out of a mapping and gives its value. -/
def takeMerge (i : Nat) : Merging (Option Nat) := do
  let nodes ← get
  let es := nodes.entries i
  match es.findIdx? fun e => (nodes.node e.1).tag == Tags.merge with
  | none => return none
  | some position =>
    set (nodes.setContent i (.mapping (es.eraseIdx position)))
    return es[position]?.map (·.2)

/-- The default key of a mapping that is used as one is ordinary text. -/
def textDefaultKeys (i : Nat) : Merging Unit :=
  modify fun nodes => (nodes.entries i).foldl (fun acc e =>
    if (acc.node e.1).tag == Tags.value then acc.setTag e.1 Tags.text else acc) nodes

mutual

/-- Works off the merge keys of a mapping. -/
def flatten : Nat → Nat → Merging Unit
  | 0, _ => throw .tooDeep
  | n + 1, i => do
    let merged ← mergeAll n i
    textDefaultKeys i
    modify fun nodes => nodes.setContent i (.mapping (merged ++ nodes.entries i))

/-- The entries that the merge keys of a mapping contribute. -/
def mergeAll : Nat → Nat → Merging (List (Nat × Nat))
  | 0, _ => throw .tooDeep
  | n + 1, i => do
    match ← takeMerge i with
    | none => return []
    | some source =>
      let first ← merged n source
      return first ++ (← mergeAll n i)

/-- The entries that a value under a merge key contributes; of several mappings the first one takes
precedence and so comes last. -/
def merged : Nat → Nat → Merging (List (Nat × Nat))
  | 0, _ => throw .tooDeep
  | n + 1, source => do
    let node := (← get).node source
    match node.content with
    | .mapping _ =>
      flatten n source
      return (← get).entries source
    | .sequence items =>
      let parts ← items.mapM fun item => do
        let member := (← get).node item
        if member.shape != .mapping then
          throw (.atMark (.unmergeableItem member.shape) member.start)
        flatten n item
        return (← get).entries item
      return parts.reverse.flatten
    | .scalar _ => throw (.atMark (.unmergeable node.shape) node.start)

end

/-- Every step but the last takes a merge key out of some mapping. -/
def budget (nodes : Nodes) : Nat :=
  4 * (nodes.foldl (fun sum node =>
    match node.content with
    | .mapping es => sum + es.length
    | _ => sum) 2)

end Merging

/-- Whether a mapping has merge keys or a default key. -/
def Nodes.hasSpecialKey (nodes : Nodes) (i : Nat) : Bool :=
  (nodes.entries i).any fun e => [Tags.merge, Tags.value].contains (nodes.node e.1).tag

/-- The nodes after the merge keys of a mapping are worked off. -/
def Nodes.flattened (nodes : Nodes) (i : Nat) : Except Failure Nodes := do
  if nodes.hasSpecialKey i then
    return (← (Merging.flatten (Merging.budget nodes) i).run nodes).2
  else return nodes

end FlowScript.Yaml
