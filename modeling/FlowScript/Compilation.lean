import FlowScript.Program.Document
import FlowScript.Source

/-!
# Compilation

From a source to a program: the template is looked up, the document is read and compiled, and the
program is written to a file if one is named.
-/
namespace FlowScript

open File (Path Tree)
open Program (Agent Context Refusal Template)

/-- The version of the compiler. -/
def version : String := "0.1.0"

namespace Compilation

structure Request where
  source : Source
  /-- The name of the template; the settings decide if it is absent or empty. -/
  template : Value := .null
  /-- The agent that performs actions, if not the one that the settings name. -/
  agent : Option Agent := none
  output : Option Path := none

/-- The settings, and the agent of the request or else the one that they name. -/
def Request.context (settings : Settings) (request : Request) : Context :=
  ⟨settings, request.agent.getD { name := settings.agentName.display }⟩

inductive Failure where
  | unreadable (e : LoadError)
  | refused (refusal : Refusal)
  | fault (f : Fault)
deriving Repr, DecidableEq

def ofLoad {α : Type} : Except Source.Failure α → Except Failure α
  | .ok a => .ok a
  | .error (.refused e) => .error (.unreadable e)
  | .error (.fault f) => .error (.fault f)

def ofProgram {α : Type} : Except Program.Failure α → Except Failure α
  | .ok a => .ok a
  | .error (.refused r) => .error (.refused r)
  | .error (.fault f) => .error (.fault f)

def templateOf (settings : Settings) (requested : Value) : Except Failure Template :=
  let name := requested.orElse settings.template
  match name.text?.bind Template.named? with
  | some template => .ok template
  | none =>
    match name.shown with
    | .ok text => .error (.refused (.unknownTemplate text Template.names))
    | .error f => .error (.fault f)

def faultOf : File.Obstacle → Fault
  | .belowFile => .outputBelowFile
  | .parentIsFile => .outputParentIsFile
  | .isDirectory => .outputIsDirectory
  | .nameTooLong => .nameTooLong

/-- The tree after a program was written to the output, if there is one. -/
def store (tree : Tree) (output : Option Path) (code : String) : Except Failure Tree :=
  match output with
  | none => .ok tree
  | some p =>
    match tree.resolve p with
    | .error f => .error (.fault f)
    | .ok target =>
      match tree.write target code.toUTF8.toList with
      | .ok after =>
        if code.toList.any Text.isStandIn then .error (.fault .surrogateInProgram) else .ok after
      | .error obstacle => .error (.fault (faultOf obstacle))

end Compilation

/-- A compiled program, its warnings, and the files after it was written. -/
structure Compilation where
  code : String
  warnings : List String
  output : Option Path
  tree : Tree

/-- Compiles a document. -/
def compile (tree : Tree) (settings : Settings) (request : Compilation.Request) :
    Except Compilation.Failure Compilation := do
  let template ← Compilation.templateOf settings request.template
  let loaded ← Compilation.ofLoad (request.source.load tree settings)
  let name := loaded.file.elim request.source.describe Path.name
  let result ← Compilation.ofProgram
    (Program.compileDocument (request.context settings) template name loaded.document)
  let after ← Compilation.store tree request.output result.code
  return ⟨result.code, result.warnings, request.output, after⟩

end FlowScript
