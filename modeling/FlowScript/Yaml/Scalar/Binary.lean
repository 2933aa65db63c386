import FlowScript.Number.Notation
import FlowScript.Text.Quote

/-!
# Bytes as text

Four characters of an alphabet of sixty-four stand for three bytes. Characters outside the alphabet
are skipped; padding ends the text where it completes a group of four.
-/
namespace FlowScript.Yaml.Binary

/-- The run of characters outside the seven-bit range that comes first, with its position. -/
structure Foreign where
  position : Nat
  run : List Char

def foreign? (cs : List Char) : Option Foreign :=
  let before := cs.takeWhile fun c => c.toNat < 128
  let run := (cs.drop before.length).takeWhile fun c => 128 ≤ c.toNat
  if run.isEmpty then none else some ⟨before.length, run⟩

def Foreign.message (f : Foreign) : String :=
  let place := match f.run with
    | [c] => "character '" ++ String.ofList (Text.codePointEscape (Text.codeOf c)) ++
        "' in position " ++ Number.natText f.position
    | _ => "characters in position " ++ Number.natText f.position ++ "-" ++
        Number.natText (f.position + f.run.length - 1)
  "'ascii' codec can't encode " ++ place ++ ": ordinal not in range(128)"

def sextet? (c : Char) : Option Nat :=
  if 'A' ≤ c && c ≤ 'Z' then some (c.toNat - 'A'.toNat)
  else if 'a' ≤ c && c ≤ 'z' then some (c.toNat - 'a'.toNat + 26)
  else if c.isDigit then some (c.toNat - '0'.toNat + 52)
  else if c == '+' then some 62
  else if c == '/' then some 63
  else none

/-- How much of a group of four is read: the number of its characters, the bits not yet used, and
the padding since. -/
structure Group where
  size : Nat := 0
  bits : Nat := 0
  padding : Nat := 0

inductive Defect where
  | dangling (count : Nat)
  | padding
deriving Repr, DecidableEq

def Defect.message : Defect → String
  | .dangling count =>
    "Invalid base64-encoded string: number of data characters (" ++ Number.natText count ++
      ") cannot be 1 more than a multiple of 4"
  | .padding => "Incorrect padding"

def decodeFrom (g : Group) (done : List UInt8) : List Char → Except Defect (List UInt8)
  | [] =>
    if g.size == 0 then .ok done.reverse
    else if g.size == 1 then .error (.dangling (done.length / 3 * 4 + 1))
    else .error .padding
  | c :: rest =>
    if c == '=' then
      if 2 ≤ g.size && 4 ≤ g.size + g.padding + 1 then .ok done.reverse
      else decodeFrom { g with padding := if 2 ≤ g.size then g.padding + 1 else g.padding } done rest
    else
      match sextet? c with
      | none => decodeFrom g done rest
      | some n =>
        match g.size with
        | 0 => decodeFrom ⟨1, n, 0⟩ done rest
        | 1 => decodeFrom ⟨2, n % 16, 0⟩ ((g.bits * 4 + n / 16).toUInt8 :: done) rest
        | 2 => decodeFrom ⟨3, n % 4, 0⟩ ((g.bits * 16 + n / 4).toUInt8 :: done) rest
        | _ => decodeFrom {} ((g.bits * 64 + n).toUInt8 :: done) rest

def decode (cs : List Char) : Except Defect (List UInt8) := decodeFrom {} [] cs

end FlowScript.Yaml.Binary
