/-!
# Surrogates

Some codes belong to no character: they are the halves by which a character outside the basic plane
is written in units of sixteen bits. An escape can name such a half all the same. It is carried as a
character of a plane without assignments, which stands for it in every text. Texts that hold one of those
characters for its own sake are left out: they are read as if they held the half.
-/
namespace FlowScript.Text

def isSurrogate (code : Nat) : Bool := 0xD800 ≤ code && code ≤ 0xDFFF

/-- The distance from a surrogate to the character that stands for it. -/
def standInOffset : Nat := 0xD0000

/-- The character with a code, or the one that stands for it. -/
def ofCode (code : Nat) : Char :=
  if isSurrogate code then Char.ofNat (code + standInOffset) else Char.ofNat code

/-- The code of a character, or the one that it stands for. -/
def codeOf (c : Char) : Nat :=
  if isSurrogate (c.toNat - standInOffset) then c.toNat - standInOffset else c.toNat

/-- Whether a character stands for a surrogate. -/
def isStandIn (c : Char) : Bool := isSurrogate (codeOf c)

end FlowScript.Text
