import FlowScript.Number.Notation
import FlowScript.Text.Quote

/-!
# Text from bytes

Strict UTF-8. The reader keeps the number of bytes that the current character still owes and the
bounds of the next one, so that it refuses a byte exactly when no character can go on with it. A
refusal says where the character began and which of its bytes were read.
-/
namespace FlowScript.Text.Utf8

inductive Defect where
  | badStart
  | badContinuation
  | truncated
deriving Repr, DecidableEq

/-- The bytes from `start` on, `first` and `count - 1` more, belong to no character. -/
structure Error where
  start : Nat
  first : UInt8
  count : Nat
  defect : Defect
deriving Repr, DecidableEq

def Defect.text : Defect → String
  | .badStart => "invalid start byte"
  | .badContinuation => "invalid continuation byte"
  | .truncated => "unexpected end of data"

def Error.message (e : Error) : String :=
  let place :=
    if e.count == 1 then
      "byte 0x" ++ String.ofList (hexDigits 2 e.first.toNat) ++ " in position " ++ Number.natText e.start
    else
      "bytes in position " ++ Number.natText e.start ++ "-" ++ Number.natText (e.start + e.count - 1)
  "'utf-8' codec can't decode " ++ place ++ ": " ++ e.defect.text

/-- A character of which some bytes are still to come. -/
structure Partial where
  start : Nat
  first : UInt8
  count : Nat
  owed : Nat
  low : Nat
  high : Nat
  code : Nat

def Partial.error (p : Partial) (defect : Defect) : Error := ⟨p.start, p.first, p.count, defect⟩

/-- What a first byte above the seven-bit range announces. -/
def lead? (start : Nat) (b : UInt8) : Option Partial :=
  let n := b.toNat
  if n < 0xC2 then none
  else if n < 0xE0 then some ⟨start, b, 1, 1, 0x80, 0xBF, n - 0xC0⟩
  else if n < 0xF0 then
    some ⟨start, b, 1, 2, if n == 0xE0 then 0xA0 else 0x80, if n == 0xED then 0x9F else 0xBF, n - 0xE0⟩
  else if n < 0xF5 then
    some ⟨start, b, 1, 3, if n == 0xF0 then 0x90 else 0x80, if n == 0xF4 then 0x8F else 0xBF, n - 0xF0⟩
  else none

/-- The character with one more byte, which lies within the bounds. -/
def Partial.extend (p : Partial) (b : UInt8) : Partial :=
  { p with count := p.count + 1, owed := p.owed - 1, low := 0x80, high := 0xBF,
           code := p.code * 64 + (b.toNat - 0x80) }

def decodeFrom (position : Nat) (open? : Option Partial) (done : List Char) :
    List UInt8 → Except Error (List Char)
  | [] =>
    match open? with
    | none => .ok done.reverse
    | some p => .error (p.error .truncated)
  | b :: rest =>
    match open? with
    | none =>
      if b.toNat < 0x80 then decodeFrom (position + 1) none (Char.ofNat b.toNat :: done) rest
      else
        match lead? position b with
        | none => .error ⟨position, b, 1, .badStart⟩
        | some p => decodeFrom (position + 1) (some p) done rest
    | some p =>
      if p.low ≤ b.toNat && b.toNat ≤ p.high then
        let p' := p.extend b
        if p'.owed == 0 then decodeFrom (position + 1) none (Char.ofNat p'.code :: done) rest
        else decodeFrom (position + 1) (some p') done rest
      else .error (p.error .badContinuation)

def decode (bytes : List UInt8) : Except Error (List Char) := decodeFrom 0 none [] bytes

end FlowScript.Text.Utf8
