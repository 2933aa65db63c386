import FlowScript.Execution.Decoding
import FlowScript.Settings

/-!
# Records of runs

What is exchanged with whatever runs a document or a program: the options of a run, its outcome, and
the report that it leaves behind. Fields that a record does not know are ignored.
-/
namespace FlowScript.Execution

open Decoded

structure Options where
  reportDirectory : String
  workingDirectory : Option String
  timeoutMs : Int

structure Outcome where
  success : Bool
  error : Option String
  exitCode : Option Int
  reportDirectory : String

structure Summary where
  total : Int
  passed : Int
  failed : Int
  status : String

structure FailedTask where
  name : String
  error : Option String
  failedStep : Option String
  screenshotPath : Option String

structure RunReport where
  found : Bool
  summary : Option Summary
  failedTasks : List FailedTask
  message : Option String

def textOrNull (es : Fields) (name : String) : Decoded (Option String) :=
  optional (nullable text) none es name

def optionalText (v : Option String) : Value := v.elim .null .text

/-- A record as a mapping. -/
def mapping (fields : List (String × Value)) : Value :=
  .map (fields.map fun f => (.text f.1, f.2))

namespace Options

def decode : Value → Decoded Options :=
  record fun es =>
    ap (ap ((optional text standardReportDirectory es "report_directory").map Options.mk)
      (textOrNull es "working_directory"))
      (optional positive standardTimeoutMs es "timeout_ms")

def value (o : Options) : Value := mapping [
  ("report_directory", .text o.reportDirectory),
  ("working_directory", optionalText o.workingDirectory),
  ("timeout_ms", .int o.timeoutMs)]

end Options

namespace Outcome

def decode : Value → Decoded Outcome :=
  record fun es =>
    ap (ap (ap ((required truth es "success").map Outcome.mk)
      (textOrNull es "error"))
      (optional (nullable integer) none es "exit_code"))
      (optional text standardReportDirectory es "report_directory")

def value (o : Outcome) : Value := mapping [
  ("success", .bool o.success),
  ("error", optionalText o.error),
  ("exit_code", o.exitCode.elim .null .int),
  ("report_directory", .text o.reportDirectory)]

end Outcome

namespace Summary

def allPassed : String := "ALL PASSED"

def hasFailures : String := "HAS FAILURES"

/-- The summary of so many tasks, of which so many passed. -/
def ofCounts (total passed : Int) : Summary :=
  ⟨total, passed, total - passed, if total - passed == 0 then allPassed else hasFailures⟩

def decode : Value → Decoded Summary :=
  record fun es =>
    ap (ap (ap ((optional integer 0 es "total").map Summary.mk)
      (optional integer 0 es "passed"))
      (optional integer 0 es "failed"))
      (optional text allPassed es "status")

def value (s : Summary) : Value := mapping [
  ("total", .int s.total), ("passed", .int s.passed), ("failed", .int s.failed),
  ("status", .text s.status)]

end Summary

namespace FailedTask

def decode : Value → Decoded FailedTask :=
  record fun es =>
    ap (ap (ap ((required text es "name").map FailedTask.mk)
      (textOrNull es "error"))
      (textOrNull es "failed_step"))
      (textOrNull es "screenshot_path")

def value (t : FailedTask) : Value := mapping [
  ("name", .text t.name), ("error", optionalText t.error),
  ("failed_step", optionalText t.failedStep), ("screenshot_path", optionalText t.screenshotPath)]

end FailedTask

namespace RunReport

def decode : Value → Decoded RunReport :=
  record fun es =>
    ap (ap (ap ((required truth es "found").map RunReport.mk)
      (optional (nullable Summary.decode) none es "summary"))
      (optional (list FailedTask.decode) [] es "failed_tasks"))
      (textOrNull es "message")

def value (r : RunReport) : Value := mapping [
  ("found", .bool r.found), ("summary", r.summary.elim .null Summary.value),
  ("failed_tasks", .list (r.failedTasks.map FailedTask.value)), ("message", optionalText r.message)]

end RunReport

end FlowScript.Execution
