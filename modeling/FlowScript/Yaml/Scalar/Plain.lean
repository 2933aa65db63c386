import FlowScript.Yaml.Cursor

/-!
# Scalars without quotes

A plain scalar is a list of runs. A run ends at a blank, at a colon that ends a key and, within
brackets, at an indicator. Line breaks between runs are folded.
-/
namespace FlowScript.Yaml.Plain

/-- Whether a character behind a colon makes the colon end a key. -/
def endsKey (flow : Bool) (c : Char) : Bool := endsToken c || (flow && isFlowIndicator c)

/-- The run at the start of a text, behind the characters before, which are given from the last to the
first. -/
def run (flow : Bool) (before : List Char) : List Char → List Char
  | [] => before.reverse
  | c :: rest =>
    if endsToken c || (c == ':' && endsKey flow (rest.head?.getD endOfText)) ||
        (flow && (isFlowIndicator c || c == '?')) then before.reverse
    else run flow (c :: before) rest

/-- What stands between two runs: its folded text, which is empty where the scalar ends, and whether
it holds a line break. -/
structure Gap where
  text : List Char
  crossed : Bool

/-- The breaks after the first one, or nothing when a document separator follows one of them. -/
def moreBreaks : Nat → Scan (Option (List Char))
  | 0 => return some []
  | n + 1 => do
    let _ ← Scan.take (· == ' ')
    if isBreak (← Scan.peek) then
      let first ← Scan.lineBreak
      if (← get).atSeparator then return none
      return (← moreBreaks n).map (first ++ ·)
    else return some []

def gap : Scan Gap := do
  let blanks ← Scan.take (· == ' ')
  if isBreak (← Scan.peek) then
    let first ← Scan.lineBreak
    if (← get).atSeparator then return ⟨[], true⟩
    match ← moreBreaks (← Scan.budget) with
    | none => return ⟨[], true⟩
    | some more => return ⟨Scan.folded first more, true⟩
  else return ⟨blanks, false⟩

/-- The runs and gaps of a scalar from the last to the first, the place behind the last run, and
whether a line ended after it. -/
structure Result where
  parts : List (List Char)
  stop : Mark
  crossed : Bool

def Result.text (r : Result) : List Char := r.parts.reverse.flatten

/-- The runs from here on; `before` is the gap since the last run. -/
def runs (flow : Bool) (indent : Int) : Nat → Result → List Char → Scan Result
  | 0, done, _ => return done
  | n + 1, done, before => do
    if (← Scan.peek) == '#' then return done
    let text := run flow [] (← get).rest
    if text.isEmpty then return done
    Scan.skip text.length
    let stop ← Scan.mark
    let after ← gap
    let done : Result := ⟨text :: before :: done.parts, stop, after.crossed⟩
    if after.text.isEmpty || (← Scan.peek) == '#' ||
        (!flow && ((← Scan.mark).column : Int) < indent) then return done
    runs flow indent n done after.text

/-- A plain scalar; outside brackets its lines are indented by at least `indent`. -/
def scan (flow : Bool) (indent : Int) : Scan Result := do
  runs flow indent (← Scan.budget) ⟨[], ← Scan.mark, false⟩ []

end FlowScript.Yaml.Plain
