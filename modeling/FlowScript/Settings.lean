import FlowScript.Limit

/-!
# Settings

The limits and defaults that detection, validation and compilation share. A configuration overrides
single fields by name; names that are no fields are ignored. Values are kept as they are given and
have their effect where they are used.
-/
namespace FlowScript

/-- How long a run may take. -/
def standardTimeoutMs : Int := 300000

/-- Where a run leaves its reports. -/
def standardReportDirectory : String := "./flowtree-report"

structure Settings where
  /-- The largest file that is read, in bytes. -/
  maxFileSize : Limit := 1048576
  maxWalkDepth : Limit := 50
  maxImportDepth : Limit := 10
  maxResolveDepth : Limit := 10
  /-- More repetitions than this are reported. -/
  maxRepeatCount : Limit := 1000
  /-- The bound of a conditional loop that gives none. -/
  defaultMaxIterations : Value := .int 100
  defaultTimeoutMs : Value := .int standardTimeoutMs
  reportDirectory : Value := .text standardReportDirectory
  indent : Value := .text "    "
  template : Value := .text "playwright"
  agentName : Value := .text "agent"
  agentFactory : Value := .text "agent_runtime:PlaywrightAgent"

namespace Settings

/-- The fields of settings by the names under which a configuration gives them. -/
def fields (s : Settings) : List (String × Value) := [
  ("max_file_size", s.maxFileSize.given),
  ("max_walk_depth", s.maxWalkDepth.given),
  ("max_import_depth", s.maxImportDepth.given),
  ("max_resolve_depth", s.maxResolveDepth.given),
  ("max_repeat_count", s.maxRepeatCount.given),
  ("default_max_iterations", s.defaultMaxIterations),
  ("default_timeout_ms", s.defaultTimeoutMs),
  ("report_directory", s.reportDirectory),
  ("indent", s.indent),
  ("template", s.template),
  ("agent_name", s.agentName),
  ("agent_factory", s.agentFactory)]

/-- Settings under a configuration. -/
def ofConfig (config : Fields) : Settings :=
  let base : Settings := {}
  let given (name : String) (default : Value) : Value := (config.get? name).getD default
  { maxFileSize := ⟨given "max_file_size" base.maxFileSize.given⟩
    maxWalkDepth := ⟨given "max_walk_depth" base.maxWalkDepth.given⟩
    maxImportDepth := ⟨given "max_import_depth" base.maxImportDepth.given⟩
    maxResolveDepth := ⟨given "max_resolve_depth" base.maxResolveDepth.given⟩
    maxRepeatCount := ⟨given "max_repeat_count" base.maxRepeatCount.given⟩
    defaultMaxIterations := given "default_max_iterations" base.defaultMaxIterations
    defaultTimeoutMs := given "default_timeout_ms" base.defaultTimeoutMs
    reportDirectory := given "report_directory" base.reportDirectory
    indent := given "indent" base.indent
    template := given "template" base.template
    agentName := given "agent_name" base.agentName
    agentFactory := given "agent_factory" base.agentFactory }

/-- How many levels of nested flows a walk enters. -/
def walkLevels (s : Settings) : Except Fault Nat := s.maxWalkDepth.levels

end Settings

end FlowScript
