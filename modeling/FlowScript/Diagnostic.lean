/-!
# Diagnostics

What validation finds. Errors make a document invalid, warnings do not. A report keeps the two apart,
each in the order of discovery.
-/
namespace FlowScript

inductive Severity where
  | error
  | warning
deriving Repr, DecidableEq

def Severity.name : Severity → String
  | .error => "error"
  | .warning => "warning"

inductive Diagnostic.Kind where
  | parse
  | skeleton
  | construct
  | reference
  | safety
  | importCycle
  | compatibility
deriving Repr, DecidableEq

namespace Diagnostic.Kind

def name : Kind → String
  | .parse => "parse"
  | .skeleton => "structure"
  | .construct => "construct"
  | .reference => "reference"
  | .safety => "safety"
  | .importCycle => "import_cycle"
  | .compatibility => "compatibility"

def all : List Kind :=
  [.parse, .skeleton, .construct, .reference, .safety, .importCycle, .compatibility]

def named? (s : String) : Option Kind := all.find? (·.name == s)

end Diagnostic.Kind

/-- One finding. The location is a path inside the document, or a line and column, or empty. -/
structure Diagnostic where
  severity : Severity
  kind : Diagnostic.Kind
  message : String
  location : String
deriving Repr, DecidableEq

namespace Diagnostic

def error (kind : Kind) (message location : String) : Diagnostic := ⟨.error, kind, message, location⟩

def warning (kind : Kind) (message location : String) : Diagnostic :=
  ⟨.warning, kind, message, location⟩

def isError (d : Diagnostic) : Bool := d.severity == .error

def text (d : Diagnostic) : String :=
  d.severity.name ++ " [" ++ d.kind.name ++ "]" ++
    (if d.location == "" then "" else " at " ++ d.location) ++ ": " ++ d.message

end Diagnostic

structure Report where
  errors : List Diagnostic := []
  warnings : List Diagnostic := []

namespace Report

/-- A report of findings in the order of discovery. -/
def ofDiagnostics (ds : List Diagnostic) : Report :=
  ⟨ds.filter (·.isError), ds.filter (!·.isError)⟩

def isValid (r : Report) : Bool := r.errors.isEmpty

/-- Errors first. -/
def diagnostics (r : Report) : List Diagnostic := r.errors ++ r.warnings

def ofKind (r : Report) (kind : Diagnostic.Kind) : List Diagnostic :=
  r.diagnostics.filter (·.kind == kind)

end Report

end FlowScript
