import FlowScript.Number.Notation

/-!
# Scopes

The names bound so far in the function under construction, each held once.
-/
namespace FlowScript.Program

structure Scope where
  names : List String := []
deriving Repr, DecidableEq

namespace Scope

def contains (scope : Scope) (name : String) : Bool := scope.names.contains name

/-- Records a binding. -/
def declare (scope : Scope) (name : String) : Scope :=
  if scope.contains name then scope else ⟨scope.names ++ [name]⟩

def declareAll (scope : Scope) (names : List String) : Scope := names.foldl declare scope

def ofNames (names : List String) : Scope := declareAll {} names

/-- The candidates for a fresh name: the base, then the base with a running number. -/
def candidate (base : String) : Nat → String
  | 0 => base
  | k + 1 => base ++ "_" ++ Number.natText (k + 1)

/-- The first candidate that is not taken. One of the first `names.length + 1` always is. -/
def freshName (scope : Scope) (base : String) : String :=
  let candidates := (List.range (scope.names.length + 1)).map (candidate base)
  (candidates.find? fun name => !scope.contains name).getD base

/-- Names in the order of their characters. -/
def sorted (scope : Scope) : List String := scope.names.mergeSort fun a b => a ≤ b

end Scope

end FlowScript.Program
