import FlowScript.Diagnostic
import FlowScript.Marker
import FlowScript.Source
import FlowScript.Step.Walk
import FlowScript.Construct.Import

/-!
# The import graph

The files that a document imports are resolved and followed. The walk keeps the files that it is
inside of on a stack; a file that is met again while it is on the stack closes a cycle. It ends
because the files that are not on the stack become fewer.
-/
namespace FlowScript.Validation

open Construct
open File (Path Tree)

/-- A file that a document imports, as it is written, and where. -/
structure ImportReference where
  target : String
  location : String
deriving Repr, DecidableEq

def entryReferences (document : Value) : List ImportReference :=
  (document.field "import").items.zipIdx.filterMap fun (entry, i) => do
    let target ← (← Import.ofEntry? entry).path.text?
    return ⟨target, "/import[" ++ Number.natText i ++ "]"⟩

/-- The file that a step imports or uses. -/
def stepReference? (visit : Walk.Visit) : Option ImportReference :=
  match visit.step.kind with
  | .importing =>
    (Import.ofStep visit.step).path.nonBlank?.map fun target => ⟨target, visit.path ++ "/import"⟩
  | .use =>
    ((Use.ofStep visit.step).reference.text?.filter Source.hasDocumentExtension).map fun target =>
      ⟨target, visit.path ++ "/use"⟩
  | _ => none

/-- The imports of a document whose paths are known before it runs. -/
def importReferences (levels : Nat) (document : Value) : List ImportReference :=
  let steps := (Walk.visits (document.walkTasks (fun _ => true) levels)).filterMap stepReference?
  (entryReferences document ++ steps).filter fun r => !Marker.hasMarker r.target

/-- The file that a reference means in a directory. -/
def ImportReference.resolve (r : ImportReference) (tree : Tree) (base : Path) : Except Fault Path :=
  tree.resolve (base.append (Path.ofString r.target))

/-! ## Targets of the document itself -/

def checkTarget (tree : Tree) (base root : Path) (r : ImportReference) :
    Except Fault (List Diagnostic) := do
  let target ← r.resolve tree base
  let outside : List Diagnostic :=
    if target.isWithin root then []
    else [.warning .safety ("Import path '" ++ r.target ++ "' resolves outside the project root '" ++
      root.text ++ "'.") r.location]
  if ← tree.has target then return outside
  return outside ++ [.warning .reference ("Import path '" ++ r.target ++
    "' does not exist (resolved to '" ++ target.text ++ "').") r.location]

/-! ## Following imports -/

/-- What the walk has done so far: the files it is through with, the cycles it has reported, the
files it has opened, and its findings. -/
structure Trace where
  checked : List Path := []
  cycles : List (List Path) := []
  opened : List Path := []
  diagnostics : List Diagnostic := []

/-- What is said of a cycle: the names of its files in order. -/
def cycleMessage (cycle : List Path) : String :=
  "Import cycle detected: " ++ String.intercalate " -> " (cycle.map Path.name) ++ "."

namespace Trace

def add (t : Trace) (d : Diagnostic) : Trace := { t with diagnostics := t.diagnostics ++ [d] }

def check (t : Trace) (p : Path) : Trace := { t with checked := t.checked ++ [p] }

def openFile (t : Trace) (p : Path) : Trace := { t with opened := t.opened ++ [p] }

/-- Reports a cycle unless it was reported before. -/
def addCycle (t : Trace) (cycle : List Path) (location : String) : Trace :=
  if t.cycles.contains cycle then t
  else
    { t with cycles := t.cycles ++ [cycle] }.add (.error .importCycle (cycleMessage cycle) location)

end Trace

/-- The part of the stack from a file on, closed by that file. -/
def cycleThrough (stack : List Path) (target : Path) : List Path :=
  stack.dropWhile (· != target) ++ [target]

def depthWarning (settings : Settings) (r : ImportReference) (location : String) : Diagnostic :=
  .warning .safety ("Import depth limit of " ++ settings.maxImportDepth.text ++
    " reached at '" ++ r.target ++ "'; deeper imports were not checked.") location

def loadWarning (e : LoadError) (location : String) : Diagnostic :=
  .warning .reference ("Imported file could not be loaded: " ++ e.message) location

/-- Whether the name of a file says that it holds a document. -/
def isDocumentName (p : Path) : Bool := File.documentExtensions.contains (Text.toLower p.suffix)

/-- Whether a path names a file that holds a document. -/
def isDocumentFile (tree : Tree) (p : Path) : Bool := isDocumentName p && tree.isFile p

/-- The path that a reference means, if it can be told what is there. -/
def ImportReference.located (r : ImportReference) (tree : Tree) (base : Path) : Except Fault Path := do
  let target ← r.resolve tree base
  if isDocumentName target then
    let _ ← tree.has target
  return target

/-- The number of files that are not on the stack. -/
def remaining (tree : Tree) (stack : List Path) : Nat :=
  (tree.filePaths.filter fun p => !stack.contains p).length

theorem filePaths_of_isDocumentFile {tree : Tree} {p : Path} (h : isDocumentFile tree p = true) :
    p ∈ tree.filePaths := by
  unfold isDocumentFile Tree.isFile at h
  exact List.contains_iff_mem.mp (Bool.and_eq_true_iff.mp h).2

theorem not_contains_push (stack : List Path) (p q : Path) :
    (!(stack ++ [p]).contains q) = ((q != p) && !stack.contains q) := by
  rw [List.contains_append, Bool.not_or, Bool.and_comm]
  congr 1
  simp only [List.contains_cons, List.contains_nil, Bool.or_false, bne]

theorem remaining_push_lt {tree : Tree} {stack : List Path} {p : Path}
    (hfile : isDocumentFile tree p = true) (hstack : stack.contains p = false) :
    remaining tree (stack ++ [p]) < remaining tree stack := by
  unfold remaining
  simp only [not_contains_push, ← List.filter_filter]
  refine List.length_filter_lt_length_iff_exists.mpr ⟨p, ?_, by simp⟩
  exact List.mem_filter.mpr ⟨filePaths_of_isDocumentFile hfile, by rw [hstack]; rfl⟩

/-- A document that was read or the reason why it could not be. -/
def readable (result : Except Source.Failure Loaded) : Except Fault (Except LoadError Loaded) :=
  match result with
  | .ok loaded => .ok (.ok loaded)
  | .error (.refused e) => .ok (.error e)
  | .error (.fault f) => .error f

/-- Follows references from the directory `base`, where documents are searched for references within
the given number of levels. Problems inside imported files are reported where
the document imports them, at `location`. -/
def follow (tree : Tree) (settings : Settings) (levels : Nat) (base : Path) (stack : List Path)
    (location : Option String) (refs : List ImportReference) (t : Trace) : Except Fault Trace :=
  match refs with
  | [] => .ok t
  | r :: rest => do
    let target ← r.located tree base
    let place := location.getD r.location
    if hfile : isDocumentFile tree target = true then
      if hstack : stack.contains target = true then
        follow tree settings levels base stack location rest (t.addCycle (cycleThrough stack target) place)
      else if t.checked.contains target then
        follow tree settings levels base stack location rest t
      else if ← settings.maxImportDepth.isReachedBy (.int stack.length) then
        settings.maxImportDepth.given.checkWritable
        follow tree settings levels base stack location rest (t.add (depthWarning settings r place))
      else
        match ← readable (Source.load tree settings (.path target)) with
        | .error e =>
          follow tree settings levels base stack location rest
            (((t.openFile target).add (loadWarning e place)).check target)
        | .ok loaded =>
          have := remaining_push_lt hfile (Bool.not_eq_true _ ▸ hstack)
          let t' ← follow tree settings levels target.parent (stack ++ [target]) (some place)
              (importReferences levels loaded.document) (t.openFile target)
          follow tree settings levels base stack location rest (t'.check target)
    else follow tree settings levels base stack location rest t
termination_by (remaining tree stack, refs.length)
decreasing_by
  all_goals first
    | exact Prod.Lex.left _ _ this
    | exact Prod.Lex.right _ (Nat.lt_succ_self _)

/-- Checks the imports of a document that was read from `file`, if from any. Relative imports start
from `base`; none should leave `root`, which is `base` unless it is given. -/
def checkImports (tree : Tree) (settings : Settings) (base : Path) (root file : Option Path)
    (document : Value) : Except Fault (List Diagnostic) := do
  let base ← tree.resolve base
  let root ← tree.resolve (root.getD base)
  let levels ← settings.walkLevels
  let refs := importReferences levels document
  let targets ← refs.mapM (checkTarget tree base root)
  let stack ← file.toList.mapM tree.resolve
  let t ← follow tree settings levels base stack none refs {}
  return targets.flatten ++ t.diagnostics

end FlowScript.Validation
