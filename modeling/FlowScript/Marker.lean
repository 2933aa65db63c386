import FlowScript.Identifier
import FlowScript.Text.Blank

/-!
# Markers

Authors refer to variables inside texts by markers `${…}`. The inner text of a marker is not empty
and ends at the first closing brace. A marker of the form `ENV.NAME` or `ENV:NAME` names a variable
of the environment instead.
-/
namespace FlowScript.Marker

/-- A marker at the start of a text and what follows it. -/
structure Found where
  inner : List Char
  rest : List Char

def read? : List Char → Option Found
  | '$' :: '{' :: cs =>
    let inner := cs.takeWhile (· != '}')
    match cs.dropWhile (· != '}') with
    | [] => none
    | _ :: rest => if inner.isEmpty then none else some ⟨inner, rest⟩
  | _ => none

theorem read?_rest_lt {cs : List Char} {m : Found} (h : read? cs = some m) :
    m.rest.length < cs.length := by
  unfold read? at h
  split at h
  · rename_i tail
    have hlen := (List.dropWhile_suffix (l := tail) (· != '}')).length_le
    dsimp only at h
    split at h
    · simp at h
    · rename_i hdrop
      rw [hdrop] at hlen
      split at h
      · simp at h
      · simp only [Option.some.injEq] at h
        subst h
        simp only [List.length_cons] at hlen ⊢
        omega
  · simp at h

/-- A text as literal parts, each followed by the inner text of a marker, and a literal end. -/
structure Split where
  parts : List (List Char × List Char)
  tail : List Char

namespace Split

/-- Puts a character in front of the first literal part. -/
def push (c : Char) (s : Split) : Split :=
  match s.parts with
  | [] => ⟨[], c :: s.tail⟩
  | (before, inner) :: more => ⟨(c :: before, inner) :: more, s.tail⟩

def inners (s : Split) : List (List Char) := s.parts.map (·.2)

end Split

/-- Markers are found from left to right and do not overlap. -/
def split (cs : List Char) : Split :=
  match h : read? cs with
  | some m =>
    have := read?_rest_lt h
    let after := split m.rest
    ⟨([], m.inner) :: after.parts, after.tail⟩
  | none =>
    match cs with
    | [] => ⟨[], []⟩
    | c :: rest => (split rest).push c
termination_by cs.length

/-- The inner text of every marker of a text, in order. -/
def inners (s : String) : List (List Char) := (split s.toList).inners

def hasMarker (s : String) : Bool := !(inners s).isEmpty

/-- The inner text of a text that is exactly one marker, up to a final line feed. -/
def single? (cs : List Char) : Option (List Char) :=
  match read? cs with
  | some m => if atEnd m.rest then some m.inner else none
  | none => none

/-- The variable that an environment marker names. -/
def environmentName? (inner : List Char) : Option (List Char) :=
  match Text.trimStart inner with
  | 'E' :: 'N' :: 'V' :: sep :: cs =>
    let name := takeName cs
    if (sep == '.' || sep == ':') && !name.isEmpty && (cs.drop name.length).all Text.isBlank then
      some name
    else none
  | _ => none

def isEnvironment (inner : List Char) : Bool := (environmentName? inner).isSome

def isRootStart (c : Char) : Bool := Text.isNameStart c || c == '$'

def isRootChar (c : Char) : Bool := Text.isNameChar c || c == '$'

/-- The variable that a marker refers to: the name its inner text starts with. -/
def root? (inner : List Char) : Option (List Char) :=
  if isEnvironment inner then none
  else
    match Text.trimStart inner with
    | c :: cs => if isRootStart c then some (c :: cs.takeWhile isRootChar) else none
    | [] => none

/-- Markers of a value that is a text; other values have none. -/
def innersOf : Value → List (List Char)
  | .text s => inners s
  | _ => []

end FlowScript.Marker
