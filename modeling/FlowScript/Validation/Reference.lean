import FlowScript.Diagnostic
import FlowScript.Marker
import FlowScript.Settings
import FlowScript.Step.Bindings
import FlowScript.Text.Search

/-!
# References to variables

The names that a document defines anywhere are compared with those that its markers refer to.
-/
namespace FlowScript.Validation

open Construct

/-- The functions, types and constants that every generated program has. -/
def builtins : List String := [
  "ArithmeticError", "AssertionError", "AttributeError", "BaseException", "BaseExceptionGroup",
  "BlockingIOError", "BrokenPipeError", "BufferError", "BytesWarning", "ChildProcessError",
  "ConnectionAbortedError", "ConnectionError", "ConnectionRefusedError", "ConnectionResetError",
  "DeprecationWarning", "EOFError", "Ellipsis", "EncodingWarning", "EnvironmentError", "Exception",
  "ExceptionGroup", "False", "FileExistsError", "FileNotFoundError", "FloatingPointError",
  "FutureWarning", "GeneratorExit", "IOError", "ImportError", "ImportWarning", "IndentationError",
  "IndexError", "InterruptedError", "IsADirectoryError", "KeyError", "KeyboardInterrupt",
  "LookupError", "MemoryError", "ModuleNotFoundError", "NameError", "None", "NotADirectoryError",
  "NotImplemented", "NotImplementedError", "OSError", "OverflowError", "PendingDeprecationWarning",
  "PermissionError", "ProcessLookupError", "RecursionError", "ReferenceError", "ResourceWarning",
  "RuntimeError", "RuntimeWarning", "StopAsyncIteration", "StopIteration", "SyntaxError",
  "SyntaxWarning", "SystemError", "SystemExit", "TabError", "TimeoutError", "True", "TypeError",
  "UnboundLocalError", "UnicodeDecodeError", "UnicodeEncodeError", "UnicodeError",
  "UnicodeTranslateError", "UnicodeWarning", "UserWarning", "ValueError", "Warning",
  "ZeroDivisionError", "__build_class__", "__debug__", "__doc__", "__import__", "__loader__",
  "__name__", "__package__", "__spec__", "abs", "aiter", "all", "anext", "any", "ascii", "bin",
  "bool", "breakpoint", "bytearray", "bytes", "callable", "chr", "classmethod", "compile",
  "complex", "copyright", "credits", "delattr", "dict", "dir", "divmod", "enumerate", "eval",
  "exec", "exit", "filter", "float", "format", "frozenset", "getattr", "globals", "hasattr", "hash",
  "help", "hex", "id", "input", "int", "isinstance", "issubclass", "iter", "len", "license", "list",
  "locals", "map", "max", "memoryview", "min", "next", "object", "oct", "open", "ord", "pow",
  "print", "property", "quit", "range", "repr", "reversed", "round", "set", "setattr", "slice",
  "sorted", "staticmethod", "str", "sum", "super", "tuple", "type", "vars", "zip"]

/-- The names that expressions of a transform may use without a definition. -/
def transformNames : List String := ["item", "acc"]

/-- Whether a marker starts with a call. -/
def isCall (inner : List Char) : Bool :=
  let cs := Text.trimStart inner
  cs.head?.any Text.isNameStart &&
    (Text.trimStart (cs.dropWhile Text.isWord)).head? == some '('

/-! ## Defined names -/

def globalNames (document : Fields) : Except Fault (List String) :=
  ((document.get "variables").fields?.getD []).mapM fun e => e.1.shown

def importedNames (document : Fields) : List String :=
  ((document.get "import").items.filterMap Import.ofEntry?).filterMap fun i =>
    i.boundName.filter (· != "")

/-- The tasks of a document as far as it has any; a scalar cannot be gone through. -/
def taskValues (document : Fields) : Except Fault (List Value) :=
  match document.get "tasks" with
  | .bool true => .error .tasksNotIterable
  | .int n => if n == 0 then .ok [] else .error .tasksNotIterable
  | .float x _ => if x == 0 then .ok [] else .error .tasksNotIterable
  | .date _ => .error .tasksNotIterable
  | .timestamp _ => .error .tasksNotIterable
  | v => .ok v.items

/-- Every name that a document defines anywhere. -/
def definedNames (settings : Settings) (document : Fields) : Except Fault (List String) := do
  let globals ← globalNames document
  let tasks ← taskValues document
  let bound ← (tasks.filterMap Value.taskFlow?).mapM fun flow => do
    flow.boundNames true (← settings.walkLevels)
  return globals ++ importedNames document ++ bound.flatten

/-! ## Undefined references -/

/-- Whether the marker with a root name may do without a definition at a path. -/
def isExempt (name inner : List Char) (path : String) : Bool :=
  (builtins.contains (String.ofList name) && isCall inner) ||
    (transformNames.contains (String.ofList name) && Text.occursIn "/data_transform".toList path.toList)

/-- The undefined names that a text refers to, once each. -/
def undefinedNames (defined : List String) (node : Value.Node) : List String :=
  distinctFrom [] ((Marker.innersOf node.value).filterMap fun inner =>
    (Marker.root? inner).bind fun name =>
      if defined.contains (String.ofList name) || isExempt name inner node.path then none
      else some (String.ofList name))

structure Undefined where
  name : String
  path : String
deriving Repr, DecidableEq

/-- Of references with the same name and path only the first one counts. -/
def firstReferences (seen : List Undefined) : List Undefined → List Undefined
  | [] => []
  | u :: us =>
    if seen.contains u then firstReferences seen us else u :: firstReferences (u :: seen) us

def undefinedReferences (levels : Nat) (defined : List String) (document : Value) : List Undefined :=
  firstReferences [] ((document.nodes levels "").flatMap fun node =>
    (undefinedNames defined node).map fun name => ⟨name, node.path⟩)

def undefinedWarning (u : Undefined) : Diagnostic :=
  .warning .reference ("Variable '$\x7b" ++ u.name ++ "\x7d' is referenced but never defined.") u.path

def checkReferences (settings : Settings) (document : Fields) : Except Fault (List Diagnostic) := do
  let defined ← definedNames settings document
  let levels ← settings.walkLevels
  return (undefinedReferences levels defined (.map document)).map undefinedWarning

end FlowScript.Validation
