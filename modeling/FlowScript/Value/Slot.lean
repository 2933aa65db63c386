import FlowScript.Value.Basic

/-!
# The members of a set

A set of numbers is kept in a table with twice as many slots as it needs, and its members are listed
in the order of their slots. A number belongs into the slot that its residue gives; if that one is
taken it goes into one of the next, and if they are taken too, the search goes on elsewhere. Sets of
other members are listed as they were written.
-/
namespace FlowScript.Value

/-- Residues are taken modulo this prime. -/
def residueModulus : Nat := Nat.pow 2 61 - 1

/-- The residue of `mantissa * 2 ^ exponent`; the powers of two repeat after sixty-one steps. -/
def residueOf (mantissa : Nat) (exponent : Int) : Nat :=
  mantissa * Nat.pow 2 (exponent.emod 61).toNat % residueModulus

/-- The residue of a number with its sign, as a word of sixty-four bits. The residue minus one is left
out. -/
def wordOf (negative : Bool) (residue : Nat) : Nat :=
  if negative && residue != 0 then Nat.pow 2 64 - (if residue == 1 then 2 else residue) else residue

/-- The word that decides on the slot of a number. -/
def slotWord? : Value → Option Nat
  | .bool b => some (if b then 1 else 0)
  | .int n => some (wordOf (n < 0) (residueOf n.natAbs 0))
  | .float x _ =>
    match Number.decode x with
    | .notANumber => none
    | .infinite negative => some (wordOf negative 314159)
    | .finite v => some (wordOf v.negative (residueOf v.mantissa v.exponent))
  | _ => none

abbrev Slots := Array (Option Value)

namespace Slots

/-- How many slots after the first one are tried next to it, where the table is long enough. -/
def reach : Nat := 9

/-- The first free slot among those that are tried from a slot on. -/
def freeFrom? (slots : Slots) (start : Nat) : Option Nat :=
  let count := if start + reach < slots.size then reach + 1 else 1
  (List.range count).map (start + ·) |>.find? fun i => (slots[i]?.join).isNone

/-- Searches a free slot; more steps than slots are never needed once the word is used up. -/
def search (slots : Slots) : Nat → Nat → Nat → Option Nat
  | 0, _, _ => none
  | n + 1, start, word =>
    match slots.freeFrom? start with
    | some i => some i
    | none =>
      let rest := word / 32
      search slots n ((start * 5 + 1 + rest) % slots.size) rest

/-- Puts a member into the slot that its word leads to. -/
def put (slots : Slots) (word : Nat) (v : Value) : Slots :=
  match slots.search (slots.size + 64) (word % slots.size) word with
  | some i => slots.setIfInBounds i (some v)
  | none => slots

/-- The number of slots for so many members: a power of two, at least eight, and twice the members
once they are more than four. -/
def sizeFor (members : Nat) : Nat :=
  if members ≤ 4 then 8 else max 8 (Nat.pow 2 (Nat.log2 (members * 2) + 1))

end Slots

/-- The members of a set in the order in which they are listed. -/
def slotOrder (members : List Value) : List Value :=
  match members.mapM slotWord? with
  | none => members
  | some words =>
    let empty : Slots := Array.replicate (Slots.sizeFor members.length) none
    let slots := (words.zip members).foldl (fun slots m => slots.put m.1 m.2) empty
    slots.toList.filterMap id

end FlowScript.Value
