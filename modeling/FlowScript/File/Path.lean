import FlowScript.Text.LetterCase
import FlowScript.Text.Surrogate

/-!
# Paths

A path is a list of parts below the root or below the working directory. Empty parts and single dots
vanish when a path is read; double dots stay until it is resolved.
-/
namespace FlowScript.File

structure Path where
  absolute : Bool
  parts : List String
  /-- Whether the path is written with exactly two slashes in front, which are kept. -/
  doubled : Bool := false
deriving Repr, DecidableEq

namespace Path

/-- The parts between slashes. -/
def splitSlashes : List Char → List (List Char)
  | [] => [[]]
  | c :: cs =>
    if c == '/' then [] :: splitSlashes cs
    else
      match splitSlashes cs with
      | part :: parts => (c :: part) :: parts
      | [] => [[c]]

def isPart (cs : List Char) : Bool := cs != [] && cs != ['.']

def ofString (s : String) : Path :=
  let cs := s.toList
  let slashes := (cs.takeWhile (· == '/')).length
  ⟨0 < slashes, ((splitSlashes cs).filter isPart).map String.ofList, slashes == 2⟩

def text (p : Path) : String :=
  let joined := String.intercalate "/" p.parts
  if p.absolute then (if p.doubled then "//" else "/") ++ joined else if p.parts.isEmpty then "." else joined

/-- The last part, empty at the root and at the working directory. -/
def name (p : Path) : String := p.parts.getLast?.getD ""

/-- The part of a name from its last point on, unless the point is its first or last character. -/
def suffixOf (name : List Char) : List Char :=
  let after := name.reverse.takeWhile (· != '.')
  let before := name.length - after.length - 1
  if after.length < name.length && 0 < before && !after.isEmpty then name.drop before else []

def suffix (p : Path) : String := String.ofList (suffixOf p.name.toList)

def parent (p : Path) : Path := { p with parts := p.parts.dropLast }

/-- A relative path continues this one; an absolute one replaces it. -/
def append (p q : Path) : Path := if q.absolute then q else { p with parts := p.parts ++ q.parts }

/-- Removes double dots together with the part before them; there is nothing above the root. -/
def resolveParts (done : List String) : List String → List String
  | [] => done
  | part :: rest =>
    if part == ".." then resolveParts done.dropLast rest else resolveParts (done ++ [part]) rest

/-- The absolute path without double dots, relative paths being taken from `here`. -/
def resolve (here p : Path) : Path := { absolute := true, parts := resolveParts [] (here.append p).parts }

/-- Whether a character stands for a surrogate that cannot be handed to a file system. A few can: they
stand for single bytes. -/
def isForeign (c : Char) : Bool :=
  Text.isStandIn c && !(0xDC80 ≤ Text.codeOf c && Text.codeOf c ≤ 0xDCFF)

/-- Whether some part holds a character that is refused. -/
def holdsAny (refused : Char → Bool) (p : Path) : Bool := p.parts.any fun part => part.toList.any refused

/-- Whether some part holds the character that ends names. -/
def hasNull (p : Path) : Bool := p.parts.any fun part => part.toList.contains (Char.ofNat 0)

/-- The longest name of a file, in bytes. -/
def maxNameLength : Nat := 255

/-- The longest path, in bytes. -/
def maxLength : Nat := 4095

/-- Whether some part of a path, or the path as a whole, is too long. -/
def isTooLong (p : Path) : Bool :=
  maxLength < p.text.utf8ByteSize || p.parts.any fun part => maxNameLength < part.utf8ByteSize

/-- Whether a path is the root directory given or lies below it. -/
def isWithin (p root : Path) : Bool := p.absolute == root.absolute && root.parts.isPrefixOf p.parts

end Path

/-- The extensions of document files. -/
def documentExtensions : List String := [".yaml", ".yml"]

/-- The extension of a path in lower case. -/
def extension (path : String) : String := Text.toLower (Path.ofString path).suffix

end FlowScript.File
