import FlowScript.Yaml.Failure

/-!
# Faults

A fault stops an operation without an answer. Problems of single steps are never faults: they become
comments, warnings or diagnostics. What is left are the few inputs for which no meaning is defined.
-/
namespace FlowScript

inductive Fault where
  /-- A transform names its operation by a collection. -/
  | operationNotHashable
  /-- A mapping to be quoted has a key that JSON cannot spell. -/
  | keyWithoutJson
  /-- A collection to be quoted contains itself. -/
  | endlessJson
  /-- An integer to be written has too many digits. -/
  | integerTooLong
  /-- Collections are nested deeper than can be gone through. -/
  | tooDeep
  /-- An import statement names no module. -/
  | importWithoutModule
  /-- A limit to compare with is no number. -/
  | limitNotANumber
  /-- An indent can neither be repeated nor multiplied. -/
  | unusableIndent
  /-- The factory of the agent is no text. -/
  | factoryNotText
  /-- The document that should have a block for a platform is no mapping. -/
  | platformNotFound
  /-- The task list is a scalar. -/
  | tasksNotIterable
  /-- A pause is too long for a double. -/
  | pauseTooLong
  /-- A count or a number of pixels is infinite. -/
  | infiniteCount
  /-- A count is not a number. -/
  | countNotANumber
  /-- A document holds a scalar that does not fit its tag. -/
  | unreadableScalar (f : Yaml.ScalarFault)
  /-- A path holds a surrogate that stands for no byte. -/
  | foreignInPath
  /-- A program to be written holds a surrogate. -/
  | surrogateInProgram
  /-- A path holds the character that ends names. -/
  | nullInPath
  /-- It cannot be told whether there is a file, because its name is too long. -/
  | nameTooLong
  /-- A program is to be written below a file. -/
  | outputBelowFile
  /-- The directory of a program is a file. -/
  | outputParentIsFile
  /-- A program is to be written over a directory. -/
  | outputIsDirectory
  /-- The document or configuration is no mapping. -/
  | notAMapping
deriving Repr, DecidableEq

end FlowScript
