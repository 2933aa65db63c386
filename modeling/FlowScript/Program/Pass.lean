import FlowScript.Fault
import FlowScript.Literal
import FlowScript.Program.Agent
import FlowScript.Program.Helper
import FlowScript.Program.Scope
import FlowScript.Settings
import FlowScript.Step.Kind
import FlowScript.Value.Json

/-!
# The generation pass

One pass goes over the flows of a document and threads a state through them: the names bound so far,
what the program will need, the warnings, and the number of parallel groups. It also keeps a record of
the steps it came to.
-/
namespace FlowScript.Program

/-- The import statements and helpers that a program needs, each held once. -/
structure Needs where
  imports : List String := []
  helpers : List Helper := []

structure Pass.State where
  scope : Scope := {}
  needs : Needs := {}
  warnings : List String := []
  groups : Nat := 0
  /-- The steps that were given to the rule of their kind, in order. -/
  handed : List Step := []
  /-- The entries of flows that only a comment stands for, in order. -/
  skipped : List Value := []

/-- What stays the same during a pass. -/
structure Context where
  settings : Settings := {}
  agent : Agent := {}

abbrev Pass := StateT Pass.State (Except Fault)

namespace Needs

def addImport (needs : Needs) (statement : String) : Needs :=
  if needs.imports.contains statement then needs
  else { needs with imports := needs.imports ++ [statement] }

def addHelper (needs : Needs) (helper : Helper) : Needs :=
  if needs.helpers.contains helper then needs
  else { needs with helpers := needs.helpers ++ [helper] }

end Needs

namespace Pass

def warn (message : String) : Pass Unit :=
  modify fun s => { s with warnings := s.warnings ++ [message] }

def requireImport (statement : String) : Pass Unit :=
  modify fun s => { s with needs := s.needs.addImport statement }

def requireHelper (helper : Helper) : Pass Unit :=
  modify fun s => { s with needs := s.needs.addHelper helper }

def declare (name : String) : Pass Unit :=
  modify fun s => { s with scope := s.scope.declare name }

/-- Declares a name that was not in scope before. -/
def declareFresh (base : String) : Pass String := do
  let name := (← get).scope.freshName base
  declare name
  return name

/-- Records that a step is given to its rule. -/
def hand (step : Step) : Pass Unit :=
  modify fun s => { s with handed := s.handed ++ [step] }

/-- The number of the next parallel group. -/
def nextGroup : Pass Nat := do
  modify fun s => { s with groups := s.groups + 1 }
  return (← get).groups

/-- The text of a value; looking up the environment needs a module. -/
def valueCode (ctx : Context) (v : Value) : Pass String := do
  liftM v.checkWritable
  if Literal.usesEnvironment v then requireImport "import os"
  return Literal.code (← liftM ctx.settings.maxResolveDepth.most) v ctx.agent.lookup

/-- The JSON text of an entry that is quoted in a comment. -/
def jsonOf (v : Value) : Pass String := liftM v.json

/-- A comment in place of an entry that cannot be compiled, and a warning to the same effect. -/
def skip (reason : String) (entry : Value) : Pass Block := do
  let quoted ← jsonOf entry
  warn (reason ++ ": " ++ quoted)
  modify fun s => { s with skipped := s.skipped ++ [entry] }
  return [.comment (reason ++ ": " ++ quoted)]

/-- The given name if it can be a variable, otherwise the fallback, with a warning if a name was
given at all. -/
def targetName (name : Value) (fallback what : String) : Pass String := do
  match name.identifier? with
  | some s => return s
  | none =>
    if !name.isNull then
      let spelled ← liftM name.spelled
      warn ("Invalid " ++ what ++ " name " ++ spelled ++ "; using '" ++ fallback ++ "' instead")
    return fallback

/-- A collection is written as a marker, as a bare name or as a literal. -/
def collectionCode (ctx : Context) (v : Value) : Pass String :=
  match v.reference? ctx.agent.lookup with
  | some expression => pure expression
  | none =>
    match v.identifier? with
    | some name => pure name
    | none => valueCode ctx v

/-- A block needs at least one statement. -/
def filled (block : Block) : Block := if block.isEmpty then [.line .pass] else block

/-- The blocks of entries one after the other. -/
def each {α : Type} (f : α → Pass Block) : List α → Pass Block
  | [] => pure []
  | a :: rest => do
    let first ← f a
    let others ← each f rest
    return first ++ others

end Pass

end FlowScript.Program
