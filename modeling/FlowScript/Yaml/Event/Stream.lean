import FlowScript.Yaml.Event.Basic
import FlowScript.Yaml.Token.Basic

/-!
# The events of a token stream

Each state of the reader expects one thing and gives one event. What comes after a node is kept on a
stack while the node is read.
-/
namespace FlowScript.Yaml

/-- What the reader expects next. -/
inductive Expectation where
  | streamStart
  | firstDocument
  | documentStart
  | documentContent
  | documentEnd
  | blockNode
  | blockSequenceFirst
  | blockSequenceEntry
  | indentlessEntry
  | blockMappingFirst
  | blockMappingKey
  | blockMappingValue
  | flowSequenceFirst
  | flowSequenceEntry
  | flowPairKey
  | flowPairValue
  | flowPairEnd
  | flowMappingFirst
  | flowMappingKey
  | flowMappingValue
  | flowMappingEmptyValue
  | nothing
deriving Repr, DecidableEq

/-- The tag handles that need no declaration. -/
def standardHandles : List (String × String) := [("!", "!"), ("!!", "tag:yaml.org,2002:")]

structure Reader where
  tokens : List Token
  ending : Failure
  next : Expectation := .streamStart
  later : List Expectation := []
  handles : List (String × String) := standardHandles

abbrev Reading := StateT Reader (Except Failure)

namespace Reading

/-- The next token, if the token stream reaches as far as that. -/
def peek : Reading Token := do
  let r ← get
  match r.tokens with
  | t :: _ => return t
  | [] => throw r.ending

def pop : Reading Token := do
  let t ← peek
  modify fun r => { r with tokens := r.tokens.tail }
  return t

def expectNext (e : Expectation) : Reading Unit := modify fun r => { r with next := e }

def postpone (e : Expectation) : Reading Unit := modify fun r => { r with later := e :: r.later }

/-- Goes back to what was postponed last. -/
def resume : Reading Unit :=
  modify fun r => { r with next := r.later.head?.getD .nothing, later := r.later.tail }

/-- Fails at the next token, which the problem names. -/
def failAt {α : Type} (problem : String → Problem) : Reading α := do
  let t ← peek
  throw (.atMark (problem t.name) t.start)

/-- How nodes may be written at a place. -/
structure Place where
  block : Bool
  indentless : Bool := false

/-- What was found in front of a node. -/
structure Found where
  anchor : Option String := none
  tag : Option Token := none
  start : Option Mark := none

def anchorOf? : Token → Option String
  | ⟨.anchor name, _, _⟩ => some name
  | _ => none

def isTag : Token → Bool
  | ⟨.tag _, _, _⟩ => true
  | _ => false

/-- An anchor and a tag in either order. -/
def properties : Reading Found := do
  let first ← peek
  match anchorOf? first with
  | some name =>
    let _ ← pop
    let second ← peek
    if isTag second then
      let _ ← pop
      return ⟨some name, some second, some first.start⟩
    else return ⟨some name, none, some first.start⟩
  | none =>
    if isTag first then
      let _ ← pop
      match anchorOf? (← peek) with
      | some name =>
        let _ ← pop
        return ⟨some name, some first, some first.start⟩
      | none => return ⟨none, some first, some first.start⟩
    else return {}

/-- The full name of a tag. -/
def tagName (token : Option Token) : Reading (Option String) := do
  match token with
  | some ⟨.tag ⟨none, suffix⟩, _, _⟩ => return some suffix
  | some ⟨.tag ⟨some handle, suffix⟩, start, _⟩ =>
    match (← get).handles.lookup handle with
    | some expansion => return some (expansion ++ suffix)
    | none => throw (.atMark (.unknownHandle handle) start)
  | _ => return none

/-- A node, of which collections give their start only. -/
def node (place : Place) : Reading Event := do
  let first ← peek
  match first.kind with
  | .reference name =>
    let _ ← pop
    resume
    return ⟨.reference name, first.start⟩
  | _ =>
    let found ← properties
    let tag ← tagName found.tag
    let t ← peek
    let start := found.start.getD t.start
    let written : Properties := ⟨found.anchor, tag⟩
    let opening (e : Expectation) (kind : Event.Kind) : Reading Event := do
      expectNext e
      return ⟨kind, start⟩
    match t.kind with
    | .blockEntry =>
      if place.indentless then opening .indentlessEntry (.sequenceStart written)
      else withoutContent written start
    | .scalar text plain =>
      let _ ← pop
      resume
      return ⟨.scalar written ((plain && tag.isNone) || tag == some "!") text, start⟩
    | .flowSequenceStart => opening .flowSequenceFirst (.sequenceStart written)
    | .flowMappingStart => opening .flowMappingFirst (.mappingStart written)
    | .blockSequenceStart =>
      if place.block then opening .blockSequenceFirst (.sequenceStart written)
      else withoutContent written start
    | .blockMappingStart =>
      if place.block then opening .blockMappingFirst (.mappingStart written)
      else withoutContent written start
    | _ => withoutContent written start
where
  /-- A node without content, which needs an anchor or a tag. -/
  withoutContent (written : Properties) (start : Mark) : Reading Event := do
    if written.anchor.isSome || written.tag.isSome then
      resume
      return ⟨.scalar written (written.tag.isNone || written.tag == some "!") "", start⟩
    else failAt .expectedContent

/-- Reads a node and then goes on as told. -/
def nodeThen (place : Place) (after : Expectation) : Reading Event := do
  postpone after
  node place

/-- An empty node, after which the reader goes on as told. -/
def emptyThen (mark : Mark) (after : Expectation) : Reading Event := do
  expectNext after
  return .empty mark

/-- The end of a collection. -/
def close (kind : Event.Kind) (mark : Mark) : Reading Event := do
  resume
  return ⟨kind, mark⟩

/-- Declarations in front of a document; the standard handles stay unless they are redefined. -/
def directives : Nat → Bool → List (String × String) → Reading Unit
  | 0, _, _ => return ()
  | n + 1, versioned, declared => do
    let t ← peek
    match t.kind with
    | .directive d =>
      let _ ← pop
      match d with
      | .version major _ =>
        if versioned then throw (.atMark .repeatedVersion t.start)
        if major != 1 then throw (.atMark .incompatibleVersion t.start)
        directives n true declared
      | .handle name expansion =>
        if (declared.lookup name).isSome then throw (.atMark (.repeatedHandle name) t.start)
        directives n versioned (declared ++ [(name, expansion)])
      | .other => directives n versioned declared
    | _ => modify fun r => { r with handles := declared ++ standardHandles }

def skipDocumentEnds : Nat → Reading Unit
  | 0 => return ()
  | n + 1 => do
    if (← peek).kind == .documentEnd then
      let _ ← pop
      skipDocumentEnds n

/-- The number of tokens left, which bounds every loop. -/
def budget : Reading Nat := return (← get).tokens.length + 1

def documentStart : Reading Event := do
  skipDocumentEnds (← budget)
  let first ← peek
  if first.kind == .streamEnd then
    let _ ← pop
    expectNext .nothing
    return ⟨.streamEnd, first.start⟩
  directives (← budget) false []
  if (← peek).kind != .documentStart then failAt .expectedDocumentStart
  let _ ← pop
  postpone .documentEnd
  expectNext .documentContent
  return ⟨.documentStart, first.start⟩

def firstDocument : Reading Event := do
  let t ← peek
  match t.kind with
  | .directive _ | .documentStart | .streamEnd => documentStart
  | _ =>
    modify fun r => { r with handles := standardHandles }
    postpone .documentEnd
    expectNext .blockNode
    return ⟨.documentStart, t.start⟩

def documentContent : Reading Event := do
  let t ← peek
  match t.kind with
  | .directive _ | .documentStart | .documentEnd | .streamEnd =>
    resume
    return .empty t.start
  | _ => node ⟨true, false⟩

def documentEnd : Reading Event := do
  let t ← peek
  if t.kind == .documentEnd then
    let _ ← pop
  expectNext .documentStart
  return ⟨.documentEnd, t.start⟩

def blockSequenceEntry : Reading Event := do
  let t ← peek
  match t.kind with
  | .blockEntry =>
    let _ ← pop
    match (← peek).kind with
    | .blockEntry | .blockEnd => emptyThen t.stop .blockSequenceEntry
    | _ => nodeThen ⟨true, false⟩ .blockSequenceEntry
  | .blockEnd =>
    let _ ← pop
    close .sequenceEnd t.start
  | _ => failAt .expectedBlockEnd

def indentlessEntry : Reading Event := do
  let t ← peek
  match t.kind with
  | .blockEntry =>
    let _ ← pop
    match (← peek).kind with
    | .blockEntry | .key | .value | .blockEnd => emptyThen t.stop .indentlessEntry
    | _ => nodeThen ⟨true, false⟩ .indentlessEntry
  | _ => close .sequenceEnd t.start

def blockMappingKey : Reading Event := do
  let t ← peek
  match t.kind with
  | .key =>
    let _ ← pop
    match (← peek).kind with
    | .key | .value | .blockEnd => emptyThen t.stop .blockMappingValue
    | _ => nodeThen ⟨true, true⟩ .blockMappingValue
  | .blockEnd =>
    let _ ← pop
    close .mappingEnd t.start
  | _ => failAt .expectedBlockEnd

def blockMappingValue : Reading Event := do
  let t ← peek
  match t.kind with
  | .value =>
    let _ ← pop
    match (← peek).kind with
    | .key | .value | .blockEnd => emptyThen t.stop .blockMappingKey
    | _ => nodeThen ⟨true, true⟩ .blockMappingKey
  | _ => emptyThen t.start .blockMappingKey

/-- Entries after the first one are set apart by commas. -/
def comma (first : Bool) (problem : String → Problem) : Reading Unit := do
  if !first then
    if (← peek).kind == .flowEntry then
      let _ ← pop
    else failAt problem

def flowSequenceEntry (first : Bool) : Reading Event := do
  if (← peek).kind != .flowSequenceEnd then comma first .expectedSequenceEnd
  let t ← peek
  match t.kind with
  | .flowSequenceEnd =>
    let _ ← pop
    close .sequenceEnd t.start
  | .key =>
    expectNext .flowPairKey
    return ⟨.mappingStart {}, t.start⟩
  | _ => nodeThen ⟨false, false⟩ .flowSequenceEntry

def flowPairKey : Reading Event := do
  let t ← pop
  match (← peek).kind with
  | .value | .flowEntry | .flowSequenceEnd => emptyThen t.stop .flowPairValue
  | _ => nodeThen ⟨false, false⟩ .flowPairValue

def flowPairValue : Reading Event := do
  let t ← peek
  match t.kind with
  | .value =>
    let _ ← pop
    match (← peek).kind with
    | .flowEntry | .flowSequenceEnd => emptyThen t.stop .flowPairEnd
    | _ => nodeThen ⟨false, false⟩ .flowPairEnd
  | _ => emptyThen t.start .flowPairEnd

def flowPairEnd : Reading Event := do
  expectNext .flowSequenceEntry
  return ⟨.mappingEnd, (← peek).start⟩

def flowMappingKey (first : Bool) : Reading Event := do
  if (← peek).kind != .flowMappingEnd then comma first .expectedMappingEnd
  let t ← peek
  match t.kind with
  | .flowMappingEnd =>
    let _ ← pop
    close .mappingEnd t.start
  | .key =>
    let _ ← pop
    match (← peek).kind with
    | .value | .flowEntry | .flowMappingEnd => emptyThen t.stop .flowMappingValue
    | _ => nodeThen ⟨false, false⟩ .flowMappingValue
  | _ => nodeThen ⟨false, false⟩ .flowMappingEmptyValue

def flowMappingValue : Reading Event := do
  let t ← peek
  match t.kind with
  | .value =>
    let _ ← pop
    match (← peek).kind with
    | .flowEntry | .flowMappingEnd => emptyThen t.stop .flowMappingKey
    | _ => nodeThen ⟨false, false⟩ .flowMappingKey
  | _ => emptyThen t.start .flowMappingKey

/-- Drops the token that opened a collection. -/
def opened (rest : Reading Event) : Reading Event := do
  let _ ← pop
  rest

/-- The next event. -/
def step : Reading Event := do
  match (← get).next with
  | .streamStart =>
    let t ← pop
    expectNext .firstDocument
    return ⟨.streamStart, t.start⟩
  | .firstDocument => firstDocument
  | .documentStart => documentStart
  | .documentContent => documentContent
  | .documentEnd => documentEnd
  | .blockNode => node ⟨true, false⟩
  | .blockSequenceFirst => opened blockSequenceEntry
  | .blockSequenceEntry => blockSequenceEntry
  | .indentlessEntry => indentlessEntry
  | .blockMappingFirst => opened blockMappingKey
  | .blockMappingKey => blockMappingKey
  | .blockMappingValue => blockMappingValue
  | .flowSequenceFirst => opened (flowSequenceEntry true)
  | .flowSequenceEntry => flowSequenceEntry false
  | .flowPairKey => flowPairKey
  | .flowPairValue => flowPairValue
  | .flowPairEnd => flowPairEnd
  | .flowMappingFirst => opened (flowMappingKey true)
  | .flowMappingKey => flowMappingKey false
  | .flowMappingValue => flowMappingValue
  | .flowMappingEmptyValue => do emptyThen (← peek).start .flowMappingKey
  | .nothing => throw (← get).ending

end Reading

/-- Reads events until the stream ends, behind those that were read before. -/
def Reader.run (before : List Event) : Nat → Reader → Stream Event
  | 0, r => ⟨before.reverse, some r.ending⟩
  | n + 1, r =>
    if r.next == .nothing then ⟨before.reverse, none⟩
    else
      match Reading.step.run r with
      | .error failure => ⟨before.reverse, some failure⟩
      | .ok (event, next) => Reader.run (event :: before) n next

/-- The events of a token stream. No more than four of them come between two uses of a token. -/
def Event.stream (tokens : Stream Token) : Stream Event :=
  Reader.run [] (4 * tokens.items.length + 8) { tokens := tokens.items, ending := tokens.ending }

end FlowScript.Yaml
