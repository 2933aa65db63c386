import FlowScript.Number.Notation
import FlowScript.Text.Quote

/-!
# Why a text is no document

Each cause is named, and one function words it. A cause belongs to the stage that finds it and is
reported at a place in the text, except for characters that no text may contain.
-/
namespace FlowScript.Yaml

/-- A place in a text; lines and columns count from zero. -/
structure Mark where
  index : Nat := 0
  line : Nat := 0
  column : Nat := 0
deriving Repr, DecidableEq, Inhabited

/-- What is looked at when a cause is found. -/
inductive Stage where
  | character
  | token
  | event
  | node
  | value
deriving Repr, DecidableEq

/-- The three kinds of node. -/
inductive Shape where
  | scalar
  | sequence
  | mapping
deriving Repr, DecidableEq

inductive Problem where
  | unacceptable (code position : Nat)
  | noToken (found : Char)
  | missingColon
  | entryNotAllowed
  | keyNotAllowed
  | valueNotAllowed
  | expectedName (found : Char)
  | expectedDigit (found : Char)
  | expectedPoint (found : Char)
  | expectedVersionEnd (found : Char)
  | expectedSpace (found : Char)
  | expectedLineEnd (found : Char)
  | expectedTagEnd (found : Char)
  | expectedHandleMark (found : Char)
  | expectedUri (found : Char)
  | expectedUriHex (found : Char)
  | undecodableUri (reason : String)
  | zeroIndentation
  | expectedBlockHeader (found : Char)
  | expectedHex (width : Nat) (found : Char)
  | unknownEscape (found : Char)
  | endInQuotes
  | separatorInQuotes
  | expectedDocumentStart (found : String)
  | repeatedVersion
  | incompatibleVersion
  | repeatedHandle (handle : String)
  | unknownHandle (handle : String)
  | expectedContent (found : String)
  | expectedBlockEnd (found : String)
  | expectedSequenceEnd (found : String)
  | expectedMappingEnd (found : String)
  | unknownAnchor (name : String)
  | repeatedAnchor
  | secondDocument
  | expectedShape (expected found : Shape)
  | unhashableKey
  | unknownTag (tag : String)
  | unmergeableItem (found : Shape)
  | unmergeable (found : Shape)
  | pairNotMapping (found : Shape)
  | pairSize (count : Nat)
  | pairsNotSequence (found : Shape)
  | binaryNotAscii (reason : String)
  | binaryNotBase64 (reason : String)
deriving Repr, DecidableEq

def Shape.name : Shape → String
  | .scalar => "scalar"
  | .sequence => "sequence"
  | .mapping => "mapping"

namespace Problem

def shown (c : Char) : String := Text.literal (String.singleton c)

def text : Problem → String
  | .unacceptable code position =>
    "unacceptable character #x" ++ String.ofList (Text.hexDigits 4 code) ++
      ": special characters are not allowed\n  in \"<unicode string>\", position " ++
      Number.natText position
  | .noToken c => "found character " ++ shown c ++ " that cannot start any token"
  | .missingColon => "could not find expected ':'"
  | .entryNotAllowed => "sequence entries are not allowed here"
  | .keyNotAllowed => "mapping keys are not allowed here"
  | .valueNotAllowed => "mapping values are not allowed here"
  | .expectedName c => "expected alphabetic or numeric character, but found " ++ shown c
  | .expectedDigit c => "expected a digit, but found " ++ shown c
  | .expectedPoint c => "expected a digit or '.', but found " ++ shown c
  | .expectedVersionEnd c => "expected a digit or ' ', but found " ++ shown c
  | .expectedSpace c => "expected ' ', but found " ++ shown c
  | .expectedLineEnd c => "expected a comment or a line break, but found " ++ shown c
  | .expectedTagEnd c => "expected '>', but found " ++ shown c
  | .expectedHandleMark c => "expected '!', but found " ++ shown c
  | .expectedUri c => "expected URI, but found " ++ shown c
  | .expectedUriHex c => "expected URI escape sequence of 2 hexadecimal numbers, but found " ++ shown c
  | .undecodableUri reason => reason
  | .zeroIndentation => "expected indentation indicator in the range 1-9, but found 0"
  | .expectedBlockHeader c => "expected chomping or indentation indicators, but found " ++ shown c
  | .expectedHex width c =>
    "expected escape sequence of " ++ Number.natText width ++ " hexadecimal numbers, but found " ++ shown c
  | .unknownEscape c => "found unknown escape character " ++ shown c
  | .endInQuotes => "found unexpected end of stream"
  | .separatorInQuotes => "found unexpected document separator"
  | .expectedDocumentStart found => "expected '<document start>', but found " ++ Text.literal found
  | .repeatedVersion => "found duplicate YAML directive"
  | .incompatibleVersion => "found incompatible YAML document (version 1.* is required)"
  | .repeatedHandle handle => "duplicate tag handle " ++ Text.literal handle
  | .unknownHandle handle => "found undefined tag handle " ++ Text.literal handle
  | .expectedContent found => "expected the node content, but found " ++ Text.literal found
  | .expectedBlockEnd found => "expected <block end>, but found " ++ Text.literal found
  | .expectedSequenceEnd found => "expected ',' or ']', but got " ++ Text.literal found
  | .expectedMappingEnd found => "expected ',' or '\x7d', but got " ++ Text.literal found
  | .unknownAnchor name => "found undefined alias " ++ Text.literal name
  | .repeatedAnchor => "second occurrence"
  | .secondDocument => "but found another document"
  | .expectedShape expected found => "expected a " ++ expected.name ++ " node, but found " ++ found.name
  | .unhashableKey => "found unhashable key"
  | .unknownTag tag => "could not determine a constructor for the tag " ++ Text.literal tag
  | .unmergeableItem found => "expected a mapping for merging, but found " ++ found.name
  | .unmergeable found => "expected a mapping or list of mappings for merging, but found " ++ found.name
  | .pairNotMapping found => "expected a mapping of length 1, but found " ++ found.name
  | .pairSize count => "expected a single mapping item, but found " ++ Number.natText count ++ " items"
  | .pairsNotSequence found => "expected a sequence, but found " ++ found.name
  | .binaryNotAscii reason => "failed to convert base64 data into ascii: " ++ reason
  | .binaryNotBase64 reason => "failed to decode base64 data: " ++ reason

def stage : Problem → Stage
  | .unacceptable .. => .character
  | .expectedDocumentStart .. | .repeatedVersion | .incompatibleVersion | .repeatedHandle ..
  | .unknownHandle .. | .expectedContent .. | .expectedBlockEnd .. | .expectedSequenceEnd ..
  | .expectedMappingEnd .. => .event
  | .unknownAnchor .. | .repeatedAnchor | .secondDocument => .node
  | .expectedShape .. | .unhashableKey | .unknownTag .. | .unmergeableItem .. | .unmergeable ..
  | .pairNotMapping .. | .pairSize .. | .pairsNotSequence .. | .binaryNotAscii ..
  | .binaryNotBase64 .. => .value
  | _ => .token

end Problem

/-- A scalar whose text does not denote a value of the kind that its tag names. -/
inductive ScalarFault where
  | emptyNumber
  | malformedNumber
  | unknownTruth
  | notATimestamp
  | timestampNotText
  | impossibleTime
  | codeOutOfRange
  | codeTooLarge
  | placeTooLarge
deriving Repr, DecidableEq

inductive Failure where
  | malformed (problem : Problem) (place : Option Mark)
  | scalar (fault : ScalarFault)
  /-- Nodes are nested deeper than can be gone through. -/
  | tooDeep
deriving Repr, DecidableEq

/-- A failure at a place. -/
def Failure.atMark (problem : Problem) (mark : Mark) : Failure := .malformed problem (some mark)

/-- A sequence that may break off. What precedes the break can be used before it is noticed. -/
structure Stream (α : Type) where
  items : List α
  failure : Option Failure

/-- The failure behind the last item. -/
def Stream.ending {α : Type} (s : Stream α) : Failure :=
  s.failure.getD (.malformed .endInQuotes none)

end FlowScript.Yaml
