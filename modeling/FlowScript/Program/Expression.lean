import FlowScript.Reference

/-!
# Transform expressions

Conditions and mappings of data transforms are written in a borrowed notation. Markers and quoted
strings are protected. In the text between them the operators and constants are exchanged, dotted
paths become subscripts, and bare names become fields of the current item.
-/
namespace FlowScript.Expression

/-! ## Operators -/

def exchangeEqual : List Char → List Char
  | '=' :: '=' :: '=' :: cs => '=' :: '=' :: exchangeEqual cs
  | '=' :: '=' :: cs => '=' :: '=' :: exchangeEqual cs
  | c :: cs => c :: exchangeEqual cs
  | [] => []

def exchangeUnequal : List Char → List Char
  | '!' :: '=' :: '=' :: cs => '!' :: '=' :: exchangeUnequal cs
  | c :: cs => c :: exchangeUnequal cs
  | [] => []

def exchangeAnd : List Char → List Char
  | '&' :: '&' :: cs => ' ' :: 'a' :: 'n' :: 'd' :: ' ' :: exchangeAnd cs
  | c :: cs => c :: exchangeAnd cs
  | [] => []

def exchangeOr : List Char → List Char
  | '|' :: '|' :: cs => ' ' :: 'o' :: 'r' :: ' ' :: exchangeOr cs
  | c :: cs => c :: exchangeOr cs
  | [] => []

/-- An exclamation mark is a negation unless an equals sign follows it. -/
def exchangeNot : List Char → List Char
  | '!' :: cs =>
    if cs.head? == some '=' then '!' :: exchangeNot cs
    else ' ' :: 'n' :: 'o' :: 't' :: ' ' :: exchangeNot cs
  | c :: cs => c :: exchangeNot cs
  | [] => []

def exchangeOperators (cs : List Char) : List Char :=
  exchangeNot (exchangeOr (exchangeAnd (exchangeUnequal (exchangeEqual cs))))

/-! ## Words and paths -/

/-- A maximal word or a single other character. -/
inductive Piece where
  | word (cs : List Char)
  | other (c : Char)
deriving Repr, DecidableEq

def pieces : List Char → List Piece
  | [] => []
  | c :: cs =>
    if Text.isWord c then
      match pieces cs with
      | .word w :: rest => .word (c :: w) :: rest
      | rest => .word [c] :: rest
    else .other c :: pieces cs

def constant (w : List Char) : List Char :=
  let s := String.ofList w
  if s == "true" then "True".toList
  else if s == "false" then "False".toList
  else if s == "null" || s == "undefined" then "None".toList
  else w

def exchangeConstants (cs : List Char) : List Char :=
  (pieces cs).flatMap fun
    | .word w => constant w
    | .other c => [c]

/-- Words joined by points, or a single other character. -/
inductive Link where
  | chain (words : List (List Char))
  | other (c : Char)
deriving Repr, DecidableEq

def startsName (w : List Char) : Bool := w.head?.any Text.isNameStart

/-- A point and a word that starts like a name continue the word before them. -/
def links : List Piece → List Link
  | [] => []
  | .other c :: rest => .other c :: links rest
  | .word w :: rest =>
    match links rest with
    | .other '.' :: .chain (v :: vs) :: more =>
      if startsName v then .chain (w :: v :: vs) :: more
      else .chain [w] :: .other '.' :: .chain (v :: vs) :: more
    | others => .chain [w] :: others

def chainText (words : List (List Char)) : List Char := List.intercalate ['.'] words

/-- After these characters a chain is part of something else. -/
def blocksChain (before : Option Char) : Bool :=
  before.any fun c => c == '.' || c == '\'' || c == '"' || c == ']'

def subscriptLinks (before : Option Char) : List Link → List Char
  | [] => []
  | .other c :: rest => c :: subscriptLinks (some c) rest
  | .chain words :: rest =>
    let text := chainText words
    let written :=
      if words.length > 1 && words.head?.any startsName && !blocksChain before then
        Reference.subscripts text
      else text
    written ++ subscriptLinks text.getLast? rest

def exchangePaths (cs : List Char) : List Char := subscriptLinks none (links (pieces cs))

/-- Several spaces in a row become one. -/
def collapseSpaces : List Char → List Char
  | ' ' :: cs => if cs.head? == some ' ' then collapseSpaces cs else ' ' :: collapseSpaces cs
  | c :: cs => c :: collapseSpaces cs
  | [] => []

def exchange (cs : List Char) : List Char :=
  collapseSpaces (exchangePaths (exchangeConstants (exchangeOperators cs)))

/-! ## Fields of the item -/

/-- The names that never stand for fields. -/
def fixedNames : List String :=
  ["item", "acc", "not", "and", "or", "True", "False", "None", "len"]

/-- After these characters a word is part of something else. -/
def blocksField (before : Option Char) : Bool :=
  before.any fun c => c == '.' || c == '\'' || c == '"'

/-- What follows a word makes it a call or a named argument. -/
def isCallOrArgument (rest : List Piece) : Bool :=
  let isSpace : Piece → Bool := fun
    | .other c => Text.isBlank c
    | .word _ => false
  match rest.dropWhile isSpace with
  | .other '(' :: _ => true
  | .other '=' :: .other '=' :: _ => false
  | .other '=' :: _ => true
  | _ => false

def fieldText (target : String) (w : List Char) : List Char :=
  target.toList ++ '[' :: '\'' :: (w ++ ['\'', ']'])

def readFields (bound : String → Bool) (target : String) (before : Option Char) :
    List Piece → List Char
  | [] => []
  | .other c :: rest => c :: readFields bound target (some c) rest
  | .word w :: rest =>
    let name := String.ofList w
    let written :=
      if startsName w && !blocksField before && !isCallOrArgument rest &&
          !(fixedNames.contains name || isKeyword name || bound name) then
        fieldText target w
      else w
    written ++ readFields bound target w.getLast? rest

def segment (bound : String → Bool) (target : Option String) (cs : List Char) : List Char :=
  let exchanged := exchange cs
  match target with
  | none => exchanged
  | some item => readFields bound item none (pieces exchanged)

/-! ## Protected text -/

inductive Protected where
  | marker (inner : List Char)
  | quoted (text : List Char)

structure Found where
  shield : Protected
  rest : List Char

/-- A quoted string that starts with the given quote. -/
def quoted? (q : Char) (cs : List Char) : Option Found :=
  match cs.dropWhile (· != q) with
  | [] => none
  | _ :: rest => some ⟨.quoted (q :: (cs.takeWhile (· != q) ++ [q])), rest⟩

def protected? : List Char → Option Found
  | '\'' :: cs => quoted? '\'' cs
  | '"' :: cs => quoted? '"' cs
  | cs => (Marker.read? cs).map fun m => ⟨.marker m.inner, m.rest⟩

theorem quoted?_rest_lt {q : Char} {cs : List Char} {f : Found} (h : quoted? q cs = some f) :
    f.rest.length < cs.length := by
  unfold quoted? at h
  have hlen := (List.dropWhile_suffix (l := cs) (· != q)).length_le
  split at h
  · simp at h
  · rename_i hdrop
    rw [hdrop] at hlen
    simp only [Option.some.injEq] at h
    subst h
    simp only [List.length_cons] at hlen ⊢
    omega

theorem protected?_rest_lt {cs : List Char} {f : Found} (h : protected? cs = some f) :
    f.rest.length < cs.length := by
  unfold protected? at h
  split at h
  · have := quoted?_rest_lt h
    simp only [List.length_cons]
    omega
  · have := quoted?_rest_lt h
    simp only [List.length_cons]
    omega
  · obtain ⟨m, hm, rfl⟩ := Option.map_eq_some_iff.1 h
    exact Marker.read?_rest_lt hm

/-- Plain parts, each followed by a protected one, and a plain end. -/
structure Split where
  parts : List (List Char × Protected)
  tail : List Char

def Split.push (c : Char) (s : Split) : Split :=
  match s.parts with
  | [] => ⟨[], c :: s.tail⟩
  | (before, shield) :: more => ⟨(c :: before, shield) :: more, s.tail⟩

def split (cs : List Char) : Split :=
  match h : protected? cs with
  | some f =>
    have := protected?_rest_lt h
    let after := split f.rest
    ⟨([], f.shield) :: after.parts, after.tail⟩
  | none =>
    match cs with
    | [] => ⟨[], []⟩
    | c :: rest => (split rest).push c
termination_by cs.length

def Protected.code (lookup : List Char → List Char) : Protected → List Char
  | .marker inner => Marker.expression inner lookup
  | .quoted text => text

def Protected.isEnvironment : Protected → Bool
  | .marker inner => Marker.isEnvironment inner
  | .quoted _ => false

def usesEnvironment (s : String) : Bool :=
  (split s.toList).parts.any fun part => part.2.isEnvironment

/-- The program text of an expression, given the names in scope and the variable of which bare names
are fields, if any. -/
def code (bound : String → Bool) (target : Option String) (s : String)
    (lookup : List Char → List Char := Marker.lookup) : String :=
  let parted := split s.toList
  let written := parted.parts.flatMap fun part => segment bound target part.1 ++ part.2.code lookup
  String.ofList (Text.trim (written ++ segment bound target parted.tail))

end FlowScript.Expression
