import FlowScript.Value.Written

/-!
# Limits

A limit bounds a count. It is kept as a configuration gives it: any number will do, also a fraction or
an infinity, and with any other value nothing can be compared. A NaN is never reached.
-/
namespace FlowScript

namespace Value

/-- How two numbers compare. Truth values count as zero and one. -/
def compare? : Value → Value → Option Ordering
  | .float x _, .float y _ =>
    if x < y then some .lt else if x == y then some .eq else if y < x then some .gt else none
  | .float x _, v => v.whole?.bind fun n => Number.compareInt? x n
  | v, .float y _ => v.whole?.bind fun n => (Number.compareInt? y n).map Ordering.swap
  | v, w => do return compare (← v.whole?) (← w.whole?)

end Value

/-- A bound on a count, as it was given. -/
structure Limit where
  given : Value

instance (n : Nat) : OfNat Limit n := ⟨⟨.int n⟩⟩

namespace Limit

/-- The text of a limit that can be written. -/
def text (limit : Limit) : String := limit.given.display

/-- The text that messages show, if the limit can be written. -/
def shown (limit : Limit) : Except Fault String := limit.given.shown

/-- More than any count of levels. -/
def boundless : Int := 1000000000

/-- The whole number next to the limit, where a fraction is rounded as told. -/
def rounded (round : Number.Exact → Int) (limit : Limit) : Except Fault Int :=
  match limit.given with
  | .int n => .ok n
  | .bool b => .ok (if b then 1 else 0)
  | .float x _ =>
    match Number.decode x with
    | .notANumber => .ok boundless
    | .infinite negative => .ok (if negative then -boundless else boundless)
    | .finite exact => .ok (round exact)
  | _ => .error .limitNotANumber

/-- The largest whole number that is not beyond the limit. -/
def most (limit : Limit) : Except Fault Int := limit.rounded Number.Exact.floor

/-- How many levels may be entered before the limit is reached. -/
def levels (limit : Limit) : Except Fault Nat :=
  (limit.rounded Number.Exact.ceiling).map Int.toNat

/-- How a number compares with the limit. -/
def compareTo (limit : Limit) (v : Value) : Except Fault (Option Ordering) :=
  match limit.given with
  | .int _ | .bool _ | .float .. => .ok (v.compare? limit.given)
  | _ => .error .limitNotANumber

/-- Whether a number is beyond the limit. -/
def isPassedBy (limit : Limit) (v : Value) : Except Fault Bool :=
  (limit.compareTo v).map fun order => order == some .gt

/-- Whether a number is at the limit or beyond it. -/
def isReachedBy (limit : Limit) (v : Value) : Except Fault Bool :=
  (limit.compareTo v).map fun order => order == some .gt || order == some .eq

end Limit

end FlowScript
