import FlowScript.Program.Platform
import FlowScript.Program.Preamble

/-!
# Whole programs

The body becomes one function. The `module` template holds that function alone, for callers with an
agent of their own; the `playwright` template adds a launcher that opens a browser and builds the
agent.
-/
namespace FlowScript.Program

inductive Template where
  | playwright
  | module
deriving Repr, DecidableEq

namespace Template

def all : List Template := [.playwright, .module]

def name : Template → String
  | .playwright => "playwright"
  | .module => "module"

def named? (s : String) : Option Template := all.find? (·.name == s)

def names : List String := all.map name

end Template

/-- Why a document cannot be compiled as a whole. -/
inductive Refusal where
  | emptyDocument
  | noTasks
  | malformedFactory (factory : String)
  | unknownTemplate (requested : String) (supported : List String)
deriving Repr, DecidableEq

namespace Refusal

def reason : Refusal → String
  | .emptyDocument => "parsed YAML document is empty or not a mapping"
  | .noTasks => "document must contain a 'tasks' list with at least one task"
  | .malformedFactory factory =>
    "agent factory '" ++ factory ++ "' must look like 'module:ClassName'"
  | .unknownTemplate requested supported =>
    "unsupported template '" ++ requested ++ "'. Valid templates are: " ++ separated supported

/-- The message of a refusal with the given reason. -/
def messageOf (reason : String) : String := "transpiler: " ++ reason

def message (r : Refusal) : String := messageOf r.reason

end Refusal

/-- Why there is no program: a document is refused, or something in it has no meaning. -/
inductive Failure where
  | refused (refusal : Refusal)
  | fault (fault : Fault)
deriving Repr, DecidableEq

def liftFault {α : Type} : Except Fault α → Except Failure α
  | .ok a => .ok a
  | .error f => .error (.fault f)

def liftRefusal {α : Type} : Except Refusal α → Except Failure α
  | .ok a => .ok a
  | .error r => .error (.refused r)

/-- The module and the class that build an agent. -/
structure Factory where
  module : String
  className : String

def Factory.read (s : String) : Except Refusal Factory :=
  let module := s.toList.takeWhile (· != ':')
  let className := s.toList.drop (module.length + 1)
  if module.isEmpty || className.isEmpty then .error (.malformedFactory s)
  else .ok ⟨String.ofList module, String.ofList className⟩

/-- The factory that a value names. -/
def Factory.ofValue (v : Value) : Except Failure Factory :=
  match v.text? with
  | some s => liftRefusal (Factory.read s)
  | none => .error (.fault .factoryNotText)

/-- What a program is made of. -/
structure Script where
  body : List String
  needs : Needs
  agent : Agent
  platform : Platform
  factory : Value
  /-- The document, as the program names it. -/
  source : String

namespace Script

/-- The docstring, the preamble and the function that runs the flow. -/
def core (s : Script) (kind preamble : String) : String :=
  "\"\"\"\nAutomation " ++ kind ++ " generated by flowtree from " ++ s.source ++ ".\n\"\"\"" ++
    preamble ++ "\n\n\n" ++ (Header.run s.agent.name).code ++ "\n" ++
    String.intercalate "\n" s.body ++ "\n"

def visit (s : Script) : String :=
  if s.platform.url == "" then ""
  else "            await page.goto(" ++ Text.quote s.platform.url ++ ")\n"

def launcher (s : Script) (factory : Factory) (width height : String) : String :=
  "\n\nasync def main():\n" ++
  "    async with async_playwright() as playwright:\n" ++
  "        browser = await playwright.chromium.launch(headless=" ++
    Value.boolText s.platform.headless ++ ", args=" ++
    Value.literal (.list (s.platform.chromeArgs.map .text)) ++ ")\n" ++
  "        page = await browser.new_page(viewport=\x7b\"width\": " ++
    width ++ ", \"height\": " ++ height ++ "\x7d)\n" ++
  "        try:\n" ++ s.visit ++
  "            " ++ s.agent.name ++ " = " ++ factory.className ++ "(page)\n" ++
  "            await run_flow(" ++ s.agent.name ++ ")\n" ++
  "        finally:\n" ++
  "            await browser.close()\n\n\n" ++
  "if __name__ == \"__main__\":\n" ++
  "    asyncio.run(main())\n"

def launcherImports (factory : Factory) : List String :=
  ["import asyncio", "from playwright.async_api import async_playwright",
    "from " ++ factory.module ++ " import " ++ factory.className]

def render (s : Script) : Template → Except Failure String
  | .module => do
    let preamble ← liftFault (s.needs.preamble [] thirdParty)
    return s.core "flow" preamble
  | .playwright => do
    let factory ← Factory.ofValue s.factory
    let outside := thirdParty ++ [before '.' factory.module]
    let preamble ← liftFault (s.needs.preamble (launcherImports factory) outside)
    let width ← liftFault (Value.writtenInt s.platform.viewportWidth)
    let height ← liftFault (Value.writtenInt s.platform.viewportHeight)
    return s.core "script" preamble ++ s.launcher factory width height

end Script

end FlowScript.Program
