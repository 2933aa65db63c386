import FlowScript.Fault
import FlowScript.File.Path
import FlowScript.Text.Utf8

/-!
# File trees

The files and directories that can be reached, and the working directory among them. There are no
links, so paths are resolved by their text alone.
-/
namespace FlowScript.File

structure Tree where
  here : Path
  files : List (Path × List UInt8) := []
  directories : List Path := []
  /-- The characters that no path may hold. -/
  refuses : Char → Bool := Path.isForeign

inductive Entry where
  | file (content : List UInt8)
  | directory
deriving Repr, DecidableEq

/-- Why there is nothing at a path. -/
inductive Absence where
  | missing
  | belowFile
  | nameTooLong
deriving Repr, DecidableEq

def Absence.text : Absence → String
  | .missing => "No such file or directory"
  | .belowFile => "Not a directory"
  | .nameTooLong => "File name too long"

namespace Tree

/-- The absolute path that is meant by a path. -/
def resolve (tree : Tree) (p : Path) : Except Fault Path :=
  let whole := tree.here.append p
  if whole.holdsAny tree.refuses then .error .foreignInPath
  else if whole.hasNull then .error .nullInPath
  else .ok (tree.here.resolve p)

/-- The paths of the files. -/
def filePaths (tree : Tree) : List Path := tree.files.map (·.1)

def isFile (tree : Tree) (p : Path) : Bool := tree.filePaths.contains p

/-- A directory is one by itself or because something lies below it. -/
def isDirectory (tree : Tree) (p : Path) : Bool :=
  p.parts.isEmpty || tree.here.isWithin p || (tree.directories.any (·.isWithin p)) ||
    (tree.filePaths.any fun f => f.parent.isWithin p)

/-- What is missing first on the way down to a path. -/
def absence (tree : Tree) (above : Path) : List String → Absence
  | [] => .missing
  | part :: rest =>
    let p : Path := { absolute := true, parts := above.parts ++ [part] }
    if Path.maxNameLength < part.utf8ByteSize then .nameTooLong
    else if tree.isFile p then .belowFile
    else if tree.isDirectory p then absence tree p rest
    else .missing

/-- What there is at an absolute path. -/
def find (tree : Tree) (p : Path) : Except Absence Entry :=
  match tree.files.lookup p with
  | some content => .ok (.file content)
  | none =>
    if Path.maxLength < p.text.utf8ByteSize then .error .nameTooLong
    else if tree.isDirectory p then .ok .directory
    else .error (tree.absence { absolute := true, parts := [] } p.parts)

/-- Whether there is anything at an absolute path, if that can be told. -/
def has (tree : Tree) (p : Path) : Except Fault Bool :=
  match tree.find p with
  | .ok _ => .ok true
  | .error .nameTooLong => .error .nameTooLong
  | .error _ => .ok false

end Tree

/-- Why a file cannot be written. -/
inductive Obstacle where
  | belowFile
  | parentIsFile
  | isDirectory
  | nameTooLong
deriving Repr, DecidableEq

/-- Whether a directory at a path would lie below a file. -/
def Tree.isBelowFile (tree : Tree) (p : Path) : Bool :=
  tree.filePaths.any fun f => f != p && p.isWithin f

/-- The tree with a file written; missing directories are made. -/
def Tree.write (tree : Tree) (p : Path) (content : List UInt8) : Except Obstacle Tree :=
  if tree.isFile p.parent then .error .parentIsFile
  else if tree.isBelowFile p.parent then .error .belowFile
  else if p.isTooLong then .error .nameTooLong
  else if tree.isDirectory p then .error .isDirectory
  else .ok { tree with files := (p, content) :: tree.files.filter (·.1 != p) }

/-- Every line break as a line feed. -/
def unifyBreaks : List Char → List Char
  | [] => []
  | '\r' :: '\n' :: cs => '\n' :: unifyBreaks cs
  | c :: cs => (if c == '\r' then '\n' else c) :: unifyBreaks cs

end FlowScript.File
