import FlowScript.Yaml.Scalar.Block
import FlowScript.Yaml.Scalar.Plain
import FlowScript.Yaml.Scalar.Quoted
import FlowScript.Yaml.Token.Basic

/-!
# The tokens of a text

Tokens are fetched one after the other. A token that may turn out to be a key is kept as pending:
when its colon is found, a key token, and possibly the start of a block mapping, is put in front of
it. Tokens in front of the first pending one are settled; when a fetch fails, they are all that can
be used.
-/
namespace FlowScript.Yaml

/-- A token that a colon would make a key. A required one starts a line of a block mapping. -/
structure PendingKey where
  level : Nat
  position : Nat
  required : Bool
  mark : Mark

/-- The distance within which the colon of a key must be found. -/
def maxKeyLength : Nat := 1024

structure Scanner where
  cursor : Cursor
  /-- The number of brackets that are open. -/
  level : Nat := 0
  /-- The column of the innermost block collection, and those around it. -/
  indent : Int := -1
  outer : List Int := []
  keyAllowed : Bool := true
  pending : List PendingKey := []
  /-- The tokens so far, the last one first, and their number. -/
  tokens : List Token := []
  count : Nat := 0
  done : Bool := false

namespace Scanner

/-- How many tokens cannot change any more. -/
def settled (s : Scanner) : Nat :=
  s.pending.foldl (fun n k => min n k.position) s.count

/-- Adds a token at the end. -/
def push (s : Scanner) (t : Token) : Scanner :=
  { s with tokens := t :: s.tokens, count := s.count + 1 }

/-- Adds a token at a position. -/
def insertAt (s : Scanner) (position : Nat) (t : Token) : Scanner :=
  let behind := s.count - position
  { s with tokens := s.tokens.take behind ++ t :: s.tokens.drop behind, count := s.count + 1 }

/-- The tokens in front of a position, in order. -/
def firstTokens (s : Scanner) (position : Nat) : List Token :=
  (s.tokens.drop (s.count - position)).reverse

def inFlow (s : Scanner) : Bool := s.level != 0

def mark (s : Scanner) : Mark := s.cursor.mark

end Scanner

abbrev Fetch := StateT Scanner (Except Failure)

namespace Fetch

def scan {α : Type} (action : Scan α) : Fetch α := do
  let s ← get
  let (a, cursor) ← action.run s.cursor
  set { s with cursor }
  return a

def fail {α : Type} (problem : Problem) : Fetch α := do
  throw (.atMark problem (← get).mark)

def emit (kind : Token.Kind) (start stop : Mark) : Fetch Unit :=
  modify fun s => s.push ⟨kind, start, stop⟩

/-- A token without extent at the cursor. -/
def emitHere (kind : Token.Kind) : Fetch Unit := do
  let m := (← get).mark
  emit kind m m

/-- A token of so many characters. -/
def emitIndicator (kind : Token.Kind) (width : Nat) : Fetch Unit := do
  let start := (← get).mark
  scan (Scan.skip width)
  emit kind start (← get).mark

/-- A token that a scan reads. -/
def emitScanned (action : Scan Token.Kind) : Fetch Unit := do
  let start := (← get).mark
  let kind ← scan action
  emit kind start (← get).mark

def allowKey (allowed : Bool) : Fetch Unit :=
  modify fun s => { s with keyAllowed := allowed }

/-- Gives up the pending key between the current brackets. -/
def dropKey : Fetch Unit := do
  let s ← get
  if s.pending.any fun k => k.level == s.level && k.required then fail .missingColon
  set { s with pending := s.pending.filter (·.level != s.level) }

/-- Makes the next token a pending key, where a key may stand. -/
def saveKey : Fetch Unit := do
  if (← get).keyAllowed then
    dropKey
    modify fun s =>
      let key : PendingKey :=
        ⟨s.level, s.count, !s.inFlow && s.indent == (s.mark.column : Int), s.mark⟩
      { s with pending := s.pending ++ [key] }

/-- Gives up the keys whose colon can no longer come. -/
def dropStaleKeys : Fetch Unit := do
  let s ← get
  let stale (k : PendingKey) :=
    k.mark.line != s.mark.line || maxKeyLength < s.mark.index - k.mark.index
  if s.pending.any fun k => stale k && k.required then fail .missingColon
  set { s with pending := s.pending.filter (!stale ·) }

/-- Closes the block collections that are deeper than a column, of which there are at most as many
as given. -/
def unwindAll (column : Int) : Nat → Fetch Unit
  | 0 => return ()
  | n + 1 => do
    let s ← get
    if column < s.indent then
      set { s with indent := s.outer.head?.getD (-1), outer := s.outer.tail }
      emitHere .blockEnd
      unwindAll column n

def unwind (column : Int) : Fetch Unit := do
  let s ← get
  if !s.inFlow then unwindAll column (s.outer.length + 1)

/-- Whether a column is deeper than the current block, in which case it becomes the current one. -/
def deepen (column : Nat) : Fetch Bool := do
  let s ← get
  if s.indent < (column : Int) then
    set { s with outer := s.indent :: s.outer, indent := (column : Int) }
    return true
  else return false

/-- Starts a block collection here if the column is deeper than the current block. -/
def openBlock (kind : Token.Kind) : Fetch Unit := do
  if ← deepen (← get).mark.column then emitHere kind

/-- An indicator between documents, or a directive. -/
def betweenDocuments (token : Fetch Unit) : Fetch Unit := do
  unwind (-1)
  dropKey
  allowKey false
  token

def streamEnd : Fetch Unit := do
  unwind (-1)
  dropKey
  modify fun s => { s with keyAllowed := false, pending := [] }
  emitHere .streamEnd
  modify fun s => { s with done := true }

def flowStart (kind : Token.Kind) : Fetch Unit := do
  saveKey
  modify fun s => { s with level := s.level + 1, keyAllowed := true }
  emitIndicator kind 1

def flowEnd (kind : Token.Kind) : Fetch Unit := do
  dropKey
  modify fun s => { s with level := s.level - 1, keyAllowed := false }
  emitIndicator kind 1

def flowEntry : Fetch Unit := do
  allowKey true
  dropKey
  emitIndicator .flowEntry 1

def blockEntry : Fetch Unit := do
  let s ← get
  if !s.inFlow then
    if !s.keyAllowed then fail .entryNotAllowed
    openBlock .blockSequenceStart
  allowKey true
  dropKey
  emitIndicator .blockEntry 1

def key : Fetch Unit := do
  let s ← get
  if !s.inFlow then
    if !s.keyAllowed then fail .keyNotAllowed
    openBlock .blockMappingStart
  allowKey (!s.inFlow)
  dropKey
  emitIndicator .key 1

/-- Puts a token without extent in front of a pending key. -/
def insertAtKey (k : PendingKey) (kind : Token.Kind) : Fetch Unit :=
  modify fun s => s.insertAt k.position ⟨kind, k.mark, k.mark⟩

/-- The colon of a pending key. -/
def valueOfKey (k : PendingKey) : Fetch Unit := do
  modify fun s => { s with pending := s.pending.filter (·.level != s.level) }
  insertAtKey k .key
  if !(← get).inFlow then
    if ← deepen k.mark.column then insertAtKey k .blockMappingStart
  allowKey false

/-- A colon with no key right before it. -/
def valueAlone : Fetch Unit := do
  let s ← get
  if !s.inFlow then
    if !s.keyAllowed then fail .valueNotAllowed
    openBlock .blockMappingStart
  allowKey (!s.inFlow)
  dropKey

def value : Fetch Unit := do
  let s ← get
  match s.pending.find? (·.level == s.level) with
  | some k => valueOfKey k
  | none => valueAlone
  emitIndicator .value 1

/-- A token that may be a key, with no key right behind it. -/
def keyLike (action : Scan Token.Kind) : Fetch Unit := do
  saveKey
  allowKey false
  emitScanned action

def blockScalar (folded : Bool) : Fetch Unit := do
  allowKey true
  dropKey
  let outer := (← get).indent
  emitScanned do return .scalar (String.ofList (← BlockScalar.scan folded outer)) false

def plain : Fetch Unit := do
  saveKey
  let s ← get
  let found ← scan (Plain.scan s.inFlow (s.indent + 1))
  allowKey found.crossed
  emit (.scalar (String.ofList found.text) true) s.mark found.stop

/-- Whether a plain scalar can start here. -/
def startsPlain (s : Scanner) : Bool :=
  let c := s.cursor.peek
  !(endsToken c || "-?:,[]\x7b\x7d#&*!|>'\"%@`".toList.contains c) ||
    (!endsToken (s.cursor.peekAt 1) && (c == '-' || (!s.inFlow && (c == '?' || c == ':'))))

/-- The token that starts at the cursor. -/
def dispatch : Fetch Unit := do
  let s ← get
  let c := s.cursor.peek
  let alone := endsToken (s.cursor.peekAt 1)
  let atMargin := s.mark.column == 0
  if c == endOfText then streamEnd
  else if c == '%' && atMargin then
    betweenDocuments (emitScanned (return .directive (← Directive.scan)))
  else if c == '-' && atMargin && s.cursor.atSeparator then
    betweenDocuments (emitIndicator .documentStart 3)
  else if c == '.' && atMargin && s.cursor.atSeparator then
    betweenDocuments (emitIndicator .documentEnd 3)
  else if c == '[' then flowStart .flowSequenceStart
  else if c == '{' then flowStart .flowMappingStart
  else if c == ']' then flowEnd .flowSequenceEnd
  else if c == '}' then flowEnd .flowMappingEnd
  else if c == ',' then flowEntry
  else if c == '-' && alone then blockEntry
  else if c == '?' && (s.inFlow || alone) then key
  else if c == ':' && (s.inFlow || alone) then value
  else if c == '*' then keyLike (return .reference (← anchorName))
  else if c == '&' then keyLike (return .anchor (← anchorName))
  else if c == '!' then keyLike (return .tag (← Tag.scan))
  else if c == '|' && !s.inFlow then blockScalar false
  else if c == '>' && !s.inFlow then blockScalar true
  else if c == '\'' || c == '"' then
    keyLike (return .scalar (String.ofList (← Quoted.scan)) false)
  else if startsPlain s then plain
  else fail (.noToken c)

/-- Goes to the next token and reads it. -/
def one : Fetch Unit := do
  let s ← get
  let (broke, cursor) := s.cursor.toNextToken
  set { s with cursor, keyAllowed := s.keyAllowed || (broke && !s.inFlow) }
  dropStaleKeys
  unwind ((← get).mark.column : Int)
  dispatch
  if !(← get).done then dropStaleKeys

end Fetch

/-- Fetches tokens until the text ends. -/
def Scanner.run : Nat → Scanner → Stream Token
  | 0, s => ⟨s.firstTokens s.count, none⟩
  | n + 1, s =>
    if s.done then ⟨s.firstTokens s.count, none⟩
    else
      match Fetch.one.run s with
      | .ok (_, next) => Scanner.run n next
      | .error failure => ⟨s.firstTokens s.settled, some failure⟩

/-- The tokens of a text. Every fetch but the last one uses up a character, which bounds their
number. -/
def Token.stream (text : List Char) : Stream Token :=
  let start : Scanner := { cursor := { rest := text, size := text.length } }
  Scanner.run (text.length + 2) (start.push ⟨.streamStart, {}, {}⟩)

end FlowScript.Yaml
