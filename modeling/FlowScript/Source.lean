import FlowScript.Fault
import FlowScript.File.Tree
import FlowScript.Settings
import FlowScript.Value.Display
import FlowScript.Yaml.Document

/-!
# Where documents come from

A document is given as a path, as text, or as a value that was read before. A text of a single line
that ends in the extension of a document file is taken for a path.
-/
namespace FlowScript

inductive Source where
  | path (p : File.Path)
  | text (s : String)
  | value (v : Value)

/-- Why a document could not be read. The location is empty if there is none. -/
structure LoadError where
  source : String
  reason : String
  location : String := ""
deriving Repr, DecidableEq

def LoadError.message (e : LoadError) : String :=
  "Cannot load document '" ++ e.source ++ "': " ++ e.reason

/-- A document together with the file and the text that it was read from. -/
structure Loaded where
  document : Value
  file : Option File.Path := none
  text : Option String := none

/-- The directory from which relative imports are resolved. -/
def Loaded.base (loaded : Loaded) (tree : File.Tree) : File.Path :=
  loaded.file.elim tree.here File.Path.parent

namespace Source

inductive Failure where
  | refused (e : LoadError)
  | fault (f : Fault)
deriving Repr, DecidableEq

def hasDocumentExtension (s : String) : Bool :=
  File.documentExtensions.any fun e => e.toList.isSuffixOf (Text.toLower (Text.strip s)).toList

/-- Whether a text is taken for a path. -/
def isPathText (s : String) : Bool := !s.toList.contains '\n' && hasDocumentExtension s

/-- Whether a source is read from a file. -/
def isPath : Source → Bool
  | .path _ => true
  | .text s => isPathText s
  | .value _ => false

/-- The name of a value's type. -/
def typeName : Value → String
  | .null => "NoneType"
  | .bool _ => "bool"
  | .int _ => "int"
  | .float .. => "float"
  | .text _ => "str"
  | .date _ => "date"
  | .timestamp _ => "datetime"
  | .bytes _ => "bytes"
  | .list _ => "list"
  | .tuple _ => "tuple"
  | .set _ => "set"
  | .map _ => "dict"
  | .endless _ content => typeName content
  | .again mapping => if mapping then "dict" else "list"

/-- A short name of a source for messages. -/
def describe : Source → String
  | .path p => p.text
  | .text s => if isPathText s then s else "<text>"
  | .value v => "<" ++ typeName v ++ ">"

/-- Whether a source is a text of blanks only. -/
def isBlank : Source → Bool
  | .text s => Text.strip s == ""
  | _ => false

def sizeReason (size : Nat) (limit : String) : String :=
  "file is " ++ Number.natText size ++ " bytes, which exceeds the " ++ limit ++
    " byte limit. Split the flow into smaller files and combine them with 'import'."

/-- The size that is counted for a directory. -/
def directorySize : Nat := 4096

/-- Why a file of a size is not read, if it is too large. -/
def sizeObstacle? (settings : Settings) (size : Nat) : Except Fault (Option String) := do
  if ← settings.maxFileSize.isPassedBy (.int size) then
    return some (sizeReason size (← settings.maxFileSize.shown))
  else return none

/-- The text of a file, or the reason why it has none. -/
def readFile (tree : File.Tree) (settings : Settings) (p : File.Path) :
    Except Fault (Except String String) := do
  match tree.find p with
  | .error absence => return .error absence.text
  | .ok .directory =>
    match ← sizeObstacle? settings directorySize with
    | some reason => return .error reason
    | none => return .error ("[Errno 21] Is a directory: " ++ Text.literal p.text)
  | .ok (.file content) =>
    match ← sizeObstacle? settings content.length with
    | some reason => return .error reason
    | none =>
      match Text.Utf8.decode content with
      | .ok cs => return .ok (String.ofList (File.unifyBreaks cs))
      | .error e => return .error e.message

/-- The place of a problem, counted from one. -/
def locationText (mark : Yaml.Mark) : String :=
  "line " ++ Number.natText (mark.line + 1) ++ ", column " ++ Number.natText (mark.column + 1)

/-- The document in a text. -/
def parse (name text : String) : Except Failure Value :=
  match Yaml.load text with
  | .ok v => .ok v
  | .error (.malformed problem place) =>
    .error (.refused ⟨name, "YAML syntax error: " ++ problem.text, place.elim "" locationText⟩)
  | .error (.scalar f) => .error (.fault (.unreadableScalar f))
  | .error .tooDeep => .error (.fault .tooDeep)

/-- The document in the file at a path, which is reported as it is written. -/
def loadFile (tree : File.Tree) (settings : Settings) (written : String) : Except Failure Loaded :=
  match tree.resolve (File.Path.ofString (Text.strip written)) with
  | .error f => .error (.fault f)
  | .ok p =>
    match readFile tree settings p with
    | .error f => .error (.fault f)
    | .ok (.error reason) => .error (.refused ⟨written, reason, ""⟩)
    | .ok (.ok content) => do
      return { document := ← parse written content, file := some p, text := some content }

def load (tree : File.Tree) (settings : Settings) : Source → Except Failure Loaded
  | .value v => .ok { document := v }
  | .path p => loadFile tree settings p.text
  | .text s =>
    if isPathText s then loadFile tree settings s
    else do return { document := ← parse "<text>" s, text := some s }

end Source

end FlowScript
