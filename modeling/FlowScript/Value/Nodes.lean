import FlowScript.Value.Written

/-!
# The nodes of a value

A value, its children, their children and so on, each with its path: `path/key` below a mapping and
`path[i]` below a list. The descent ends after a given number of levels.
-/
namespace FlowScript.Value

structure Node where
  value : Value
  path : String

def itemPath (path : String) (i : Nat) : String := path ++ "[" ++ Number.natText i ++ "]"

def keyPath (path : String) (key : Value) : String := path ++ "/" ++ key.display

def children (path : String) (v : Value) : List Node :=
  match v.fields? with
  | some es => es.map fun e => ⟨e.2, keyPath path e.1⟩
  | none => v.items.zipIdx.map fun (item, i) => ⟨item, itemPath path i⟩

/-- The nodes within the given number of levels, each before its children. -/
def nodes : Nat → String → Value → List Node
  | 0, path, v => [⟨v, path⟩]
  | levels + 1, path, v =>
    ⟨v, path⟩ :: (children path v).flatMap fun child => nodes levels child.path child.value

structure KeyNode where
  key : String
  path : String

/-- Every key of every mapping among the nodes. -/
def keys (levels : Nat) (path : String) (v : Value) : List KeyNode :=
  (nodes levels path v).flatMap fun node =>
    (node.value.fields?.getD []).map fun e => ⟨e.1.display, keyPath node.path e.1⟩

/-- Refuses a mapping that has a key without a text. -/
def checkKeys (v : Value) : Except Fault Unit := ((v.fields?.getD []).map (·.1)).forM checkWritable

/-- Refuses values whose nodes have no paths: a key on the way cannot be written, or the value has no
end and more levels are asked for than it is unrolled to. -/
def checkNodes : Nat → Value → Except Fault Unit
  | 0, _ => .ok ()
  | levels + 1, v => do
    if v.isAgain then throw .tooDeep
    v.checkKeys
    (children "" v).forM fun child => checkNodes levels child.value

/-- Refuses values of which some key among the nodes cannot be written. -/
def checkAllKeys (levels : Nat) (v : Value) : Except Fault Unit := do
  checkNodes levels v
  (nodes levels "" v).forM fun node => node.value.checkKeys

mutual

/-- How many collections lie inside one another. -/
def nestingDepth : Value → Nat
  | .list vs => 1 + nestingDepthItems vs
  | .map es => 1 + nestingDepthEntries es
  | .endless .. => maxNesting + 1
  | _ => 0

def nestingDepthItems : List Value → Nat
  | [] => 0
  | v :: vs => max (nestingDepth v) (nestingDepthItems vs)

def nestingDepthEntries : List (Value × Value) → Nat
  | [] => 0
  | (_, v) :: es => max (nestingDepth v) (nestingDepthEntries es)

end

/-- How many collections lie inside one another, if they can be gone through. -/
def measuredDepth (v : Value) : Except Fault Nat :=
  if v.nestingDepth ≤ maxNesting then .ok v.nestingDepth else .error .tooDeep

end FlowScript.Value
