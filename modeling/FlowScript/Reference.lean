import FlowScript.Marker
import FlowScript.Text.Digit

/-!
# References

A reference path is a name followed by segments `.name` and `[digits]`. It is written as a chain of
subscripts, so that it reads dictionaries and lists: `user.name` becomes `user['name']` and
`rows[0].id` becomes `rows[0]['id']`.
-/
namespace FlowScript.Reference

inductive Segment where
  | index (digits : List Char)
  | key (name : List Char)
deriving Repr, DecidableEq

/-- A name of digits only is an index. -/
def Segment.named (name : List Char) : Segment :=
  if name.all Char.isDigit then .index name else .key name

def Segment.subscript : Segment → List Char
  | .index ds => '[' :: (ds ++ [']'])
  | .key name => '[' :: '\'' :: (name ++ ['\'', ']'])

structure Found where
  segment : Segment
  rest : List Char

/-- A segment at the start of a text and what follows it. -/
def segment? : List Char → Option Found
  | '.' :: cs =>
    let name := cs.takeWhile Text.isNameChar
    if name.isEmpty then none else some ⟨.named name, cs.drop name.length⟩
  | '[' :: cs =>
    let ds := cs.takeWhile Text.isDecimalDigit
    match cs.drop ds.length with
    | ']' :: rest => if ds.isEmpty then none else some ⟨.index ds, rest⟩
    | _ => none
  | _ => none

theorem segment?_rest_lt {cs : List Char} {f : Found} (h : segment? cs = some f) :
    f.rest.length < cs.length := by
  unfold segment? at h
  split at h
  · dsimp only at h
    split at h
    · simp at h
    · simp only [Option.some.injEq] at h
      subst h
      simp only [List.length_drop, List.length_cons]
      omega
  · rename_i tail
    dsimp only at h
    split at h
    · rename_i hdrop
      split at h
      · simp at h
      · simp only [Option.some.injEq] at h
        subst h
        have hlen := congrArg List.length hdrop
        simp only [List.length_drop, List.length_cons] at hlen ⊢
        omega
    · simp at h
  · simp at h

/-- Every segment of a text, from left to right; what is no segment is passed over. -/
def segments (cs : List Char) : List Segment :=
  match h : segment? cs with
  | some f =>
    have := segment?_rest_lt h
    f.segment :: segments f.rest
  | none =>
    match cs with
    | [] => []
    | _ :: rest => segments rest
termination_by cs.length

/-- Whether a text consists of segments only. -/
def isSegments (cs : List Char) : Bool :=
  match h : segment? cs with
  | some f =>
    have := segment?_rest_lt h
    isSegments f.rest
  | none => atEnd cs
termination_by cs.length

def isPath (cs : List Char) : Bool :=
  let root := takeName cs
  !root.isEmpty && isSegments (cs.drop root.length)

/-- The text before the first point or opening bracket. -/
def head (cs : List Char) : List Char := cs.takeWhile fun c => c != '.' && c != '['

/-- A path as a chain of subscripts on its root; a text without a root is left alone. -/
def subscripts (cs : List Char) : List Char :=
  if isNamed (head cs) then
    let root := takeName cs
    root ++ (segments (cs.drop root.length)).flatMap Segment.subscript
  else cs

end FlowScript.Reference

namespace FlowScript.Marker

/-- The expression that reads a variable of the environment. -/
def lookup (name : List Char) : List Char := "os.environ.get('".toList ++ name ++ "', '')".toList

open Reference in
/-- The expression that the inner text of a marker stands for. -/
def expression (inner : List Char) (lookup : List Char → List Char := lookup) : List Char :=
  match environmentName? inner with
  | some name => lookup name
  | none =>
    let body := Text.trim inner
    if isPath body then subscripts body else body

/-- The expression of a text that is one marker for a variable. -/
def reference? (s : String) (lookup : List Char → List Char := lookup) : Option String :=
  match single? (Text.trim s.toList) with
  | some inner => if isEnvironment inner then none else some (String.ofList (expression inner lookup))
  | none => none

end FlowScript.Marker

namespace FlowScript

def Value.reference? (v : Value) (lookup : List Char → List Char := Marker.lookup) : Option String :=
  match v with
  | .text s => Marker.reference? s lookup
  | _ => none

end FlowScript
