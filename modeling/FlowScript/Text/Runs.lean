/-!
# Sets of characters as alternating runs

A property of characters holds on long runs of consecutive code points. The lengths of the runs,
alternately outside and inside the set, describe it compactly.
-/
namespace FlowScript.Text

/-- Whether a code point lies in the set whose runs have the given lengths, the first run being
outside. -/
def inRuns : List Nat → Nat → Bool
  | outer :: inner :: rest, n =>
    if n < outer then false
    else if n < outer + inner then true
    else inRuns rest (n - (outer + inner))
  | _, _ => false

end FlowScript.Text
