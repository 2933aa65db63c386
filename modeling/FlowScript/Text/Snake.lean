import FlowScript.Text.Digit
import FlowScript.Text.LetterCase

/-!
# Snake case

`aiTap` becomes `ai_tap` and `HTMLPage` becomes `html_page`: an underscore goes before a capital that
starts a word, hyphens become underscores, and the result is in lower case.
-/
namespace FlowScript.Text

def isCapital (c : Char) : Bool := 'A' ≤ c && c ≤ 'Z'

def isSmall (c : Char) : Bool := 'a' ≤ c && c ≤ 'z'

/-- Parts the last capital of a run from the run when a small letter follows it. -/
def partAcronyms : List Char → List Char
  | a :: b :: c :: cs =>
    if isCapital a && isCapital b && isSmall c then a :: '_' :: partAcronyms (b :: c :: cs)
    else a :: partAcronyms (b :: c :: cs)
  | cs => cs

/-- Parts a capital from a small letter or digit before it. -/
def partHumps : List Char → List Char
  | a :: b :: cs =>
    if (isSmall a || isDecimalDigit a) && isCapital b then a :: '_' :: partHumps (b :: cs)
    else a :: partHumps (b :: cs)
  | cs => cs

def toSnake (s : String) : String :=
  let parted := partHumps (partAcronyms s.toList)
  toLower (String.ofList (parted.map fun c => if c == '-' then '_' else c))

end FlowScript.Text
