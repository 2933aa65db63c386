import FlowScript.Proofs.Tokens

/-!
# Reference paths as chains of subscripts

A reference path is written as a root and accesses `.name` or `[digits]`. It is tested as a whole, its root is
cut off, and its segments are then looked for one after the other, where what is no segment is passed over.
The main statement is that nothing is passed over: the variable that is checked is the root, and the chain
of subscripts that stands for the path is read back as this root and the segments of the path, in order.
-/
namespace FlowScript

namespace Text

/-- Trimming the start alone leaves the blanks at the end. -/
theorem trimStart_eq_trim_append (cs : List Char) :
    ∃ blanks, trimStart cs = trim cs ++ blanks ∧ ∀ c ∈ blanks, isBlank c = true := by
  refine ⟨((trimStart cs).reverse.takeWhile isBlank).reverse, ?_, fun c hc => ?_⟩
  · rw [trim, trimEnd, ← List.reverse_append, List.takeWhile_append_dropWhile, List.reverse_reverse]
  · exact List.mem_takeWhile_imp (List.mem_reverse.mp hc)

end Text

namespace Reference

/-! ## Paths as authors write them -/

/-- Digits of the basic alphabet that spell a number in base ten without superfluous zeros. -/
def isNumeral (ds : List Char) : Bool :=
  !ds.isEmpty && ds.all Char.isDigit && (ds.length == 1 || ds.head? != some '0')

/-- What an author writes after the root of a path. Where there are only digits, they are a numeral. -/
inductive Access where
  | field (name : List Char) (hne : name ≠ []) (hname : name.all Text.isNameChar = true)
      (hnumeral : name.all Char.isDigit = true → isNumeral name = true)
  | position (digits : List Char) (hnumeral : isNumeral digits = true)

namespace Access

def text : Access → List Char
  | .field name .. => '.' :: name
  | .position digits _ => '[' :: (digits ++ [']'])

/-- Digits select a place of a list, and any other name a key of a dictionary. -/
def segment : Access → Segment
  | .field name .. => if name.all Char.isDigit then .index name else .key name
  | .position digits _ => .index digits

end Access

structure Path where
  root : List Char
  form : hasNameForm root = true
  accesses : List Access

namespace Path

def text (path : Path) : List Char := path.root ++ path.accesses.flatMap Access.text

def segments (path : Path) : List Segment := path.accesses.map Access.segment

end Path

/-! ## Chains of subscripts -/

/-- A variable and the subscripts on it. -/
structure Chain where
  root : List Char
  segments : List Segment

/-- A subscript at the start of a text: a quoted key or a number, in brackets. -/
def readSubscript : List Char → Option (Reading Segment)
  | '[' :: '\'' :: cs => do
    let key ← Text.readQuoted cs
    match key.rest with
    | ']' :: rest => return ⟨.key key.value, rest⟩
    | _ => none
  | '[' :: cs =>
    let ds := cs.takeWhile Char.isDigit
    match cs.drop ds.length with
    | ']' :: rest => if isNumeral ds then some ⟨.index ds, rest⟩ else none
    | _ => none
  | _ => none

/-- The subscripts that make up a text. -/
def readSubscripts : Nat → List Char → Option (List Segment)
  | _, [] => some []
  | 0, _ :: _ => none
  | fuel + 1, c :: cs => do
    let first ← readSubscript (c :: cs)
    let others ← readSubscripts fuel first.rest
    return first.value :: others

/-- The chain that a text is from its first to its last character. -/
def readChain? (cs : List Char) : Option Chain :=
  let root := takeName cs
  if root.isEmpty then none
  else (readSubscripts cs.length (cs.drop root.length)).map fun segments => ⟨root, segments⟩

/-! ## Segments of a path -/

theorem isDigit_of_isNumeral {ds : List Char} (h : isNumeral ds = true) : ∀ c ∈ ds, c.isDigit = true := by
  simp only [isNumeral, Bool.and_eq_true] at h
  exact List.all_eq_true.mp h.1.2

theorem ne_nil_of_isNumeral {ds : List Char} (h : isNumeral ds = true) : ds ≠ [] := by
  rintro rfl
  cases h

theorem isDecimalDigit_of_isDigit {c : Char} (h : c.isDigit = true) : Text.isDecimalDigit c = true := by
  have hrange := Expression.isNameChar_range (Expression.isNameChar_of_isDigit h)
  rw [Text.isDecimalDigit, Text.digitValue?, if_pos (by omega), if_pos h, Option.isSome_some]

/-- A text that does not go on with a character of a name. -/
def EndsName (rest : List Char) : Prop := rest.takeWhile Text.isNameChar = []

theorem endsName_accesses (accesses : List Access) : EndsName (accesses.flatMap Access.text) := by
  cases accesses with
  | nil => rfl
  | cons a accesses => cases a <;> rfl

/-- An access is found as a whole, and nothing of what follows it. -/
theorem segment?_text (a : Access) {rest : List Char} (h : EndsName rest) :
    segment? (a.text ++ rest) = some ⟨a.segment, rest⟩ := by
  cases a with
  | field name hne hname hnumeral =>
    have htake : (name ++ rest).takeWhile Text.isNameChar = name := by
      rw [List.takeWhile_append_of_pos (List.all_eq_true.mp hname), h, List.append_nil]
    rw [Access.text, List.cons_append, segment?, htake, if_neg (by simpa using hne), List.drop_left]
    rfl
  | position digits hnumeral =>
    have htake : (digits ++ ']' :: rest).takeWhile Text.isDecimalDigit = digits := by
      rw [List.takeWhile_append_of_pos fun c hc => isDecimalDigit_of_isDigit (isDigit_of_isNumeral hnumeral c hc),
        List.takeWhile_cons_of_neg (by decide), List.append_nil]
    have hne : digits.isEmpty = false := by simpa using ne_nil_of_isNumeral hnumeral
    rw [Access.text, List.cons_append, List.append_assoc, List.singleton_append, segment?, htake, List.drop_left]
    simp only [hne]
    rfl

theorem segments_of_segment? {cs : List Char} {f : Found} (h : segment? cs = some f) :
    segments cs = f.segment :: segments f.rest := by
  rw [segments]
  split
  · rename_i found hfound
    obtain rfl := Option.some.inj (h.symm.trans hfound)
    rfl
  · rename_i hnone
    cases h.symm.trans hnone

theorem isSegments_of_segment? {cs : List Char} {f : Found} (h : segment? cs = some f) :
    isSegments cs = isSegments f.rest := by
  rw [isSegments]
  split
  · rename_i found hfound
    obtain rfl := Option.some.inj (h.symm.trans hfound)
    rfl
  · rename_i hnone
    cases h.symm.trans hnone

/-- The segments that are found one after the other are those of the accesses. -/
theorem segments_accesses (accesses : List Access) :
    segments (accesses.flatMap Access.text) = accesses.map Access.segment := by
  induction accesses with
  | nil => rw [List.flatMap_nil, segments]; rfl
  | cons a accesses ih =>
    rw [List.flatMap_cons, segments_of_segment? (segment?_text a (endsName_accesses accesses)), ih, List.map_cons]

theorem isSegments_accesses (accesses : List Access) : isSegments (accesses.flatMap Access.text) = true := by
  induction accesses with
  | nil => rw [List.flatMap_nil, isSegments]; rfl
  | cons a accesses ih =>
    rw [List.flatMap_cons, isSegments_of_segment? (segment?_text a (endsName_accesses accesses)), ih]

theorem takeName_append {root rest : List Char} (hroot : hasNameForm root = true) (hrest : EndsName rest) :
    takeName (root ++ rest) = root := by
  cases root with
  | nil => cases hroot
  | cons c cs =>
    rw [hasNameForm, Bool.and_eq_true] at hroot
    rw [List.cons_append, takeName, if_pos hroot.1, List.takeWhile_append_of_pos (List.all_eq_true.mp hroot.2), hrest,
      List.append_nil]

namespace Path

variable (path : Path)

theorem takeName_text : takeName path.text = path.root :=
  takeName_append path.form (endsName_accesses path.accesses)

theorem drop_text : path.text.drop path.root.length = path.accesses.flatMap Access.text := List.drop_left

theorem root_ne_nil : path.root ≠ [] := by
  intro hnil
  have hform := path.form
  rw [hnil] at hform
  cases hform

theorem isPath_text : isPath path.text = true := by
  have hne : path.root.isEmpty = false := by simpa using path.root_ne_nil
  simp only [isPath, path.takeName_text, path.drop_text, isSegments_accesses, hne]
  rfl

theorem subscripts_text : subscripts path.text = path.root ++ path.segments.flatMap Segment.subscript := by
  rw [subscripts_of_isPath path.isPath_text, path.takeName_text, path.drop_text, segments_accesses, Path.segments]

end Path

/-! ## Reading chains -/

theorem flatMap_escapeChar {name : List Char} (h : name.all Text.isNameChar = true) :
    name.flatMap Text.escapeChar = name := by
  have hplain : ∀ d ∈ ['\\', '\'', '\n', '\r', '\t'], Text.isNameChar d = false :=
    List.all_iff_forall_prop.mp (by decide)
  have hchar : ∀ c ∈ name, Text.escapeChar c = [c] := by
    intro c hc
    have hname := Expression.not_mem_of_isNameChar hplain (List.all_eq_true.mp h c hc)
    simp only [List.mem_cons, List.not_mem_nil, or_false, not_or] at hname
    simp [Text.escapeChar, hname]
  rw [List.flatMap_congr hchar, List.flatMap_singleton']

/-- The subscript of an access is read as its segment. -/
theorem readSubscript_segment (a : Access) (rest : List Char) :
    readSubscript (a.segment.subscript ++ rest) = some ⟨a.segment, rest⟩ := by
  have hindex {ds : List Char} (h : isNumeral ds = true) :
      readSubscript ((Segment.index ds).subscript ++ rest) = some ⟨.index ds, rest⟩ := by
    obtain ⟨d, more, rfl⟩ := List.exists_cons_of_ne_nil (ne_nil_of_isNumeral h)
    have hdigit := isDigit_of_isNumeral h
    have hquote : d ≠ '\'' := by
      rintro rfl
      exact absurd (hdigit _ List.mem_cons_self) (by decide)
    have htake : (d :: more ++ ']' :: rest).takeWhile Char.isDigit = d :: more := by
      rw [List.takeWhile_append_of_pos hdigit, List.takeWhile_cons_of_neg (by decide), List.append_nil]
    rw [Segment.subscript, List.cons_append, List.append_assoc, List.singleton_append, readSubscript]
    · simp only [htake, List.drop_left, h, if_true]
    · rintro cs heq
      exact hquote (List.cons.inj heq).1
  cases a with
  | field name hne hname hnumeral =>
    rw [Access.segment]
    split_ifs with hdigits
    · exact hindex (hnumeral hdigits)
    · have hread := Text.readQuoted_escape name (']' :: rest)
      rw [flatMap_escapeChar hname] at hread
      have htext : (Segment.key name).subscript ++ rest = '[' :: '\'' :: (name ++ '\'' :: ']' :: rest) := by
        simp [Segment.subscript]
      rw [htext, readSubscript, hread]
      rfl
  | position digits hnumeral => exact hindex hnumeral

theorem readSubscripts_accesses (accesses : List Access) {fuel : Nat} (hfuel : accesses.length ≤ fuel) :
    readSubscripts fuel ((accesses.map Access.segment).flatMap Segment.subscript) =
      some (accesses.map Access.segment) := by
  induction accesses generalizing fuel with
  | nil => cases fuel <;> rfl
  | cons a accesses ih =>
    obtain ⟨fuel, rfl⟩ : ∃ n, fuel = n + 1 := ⟨fuel - 1, by simp only [List.length_cons] at hfuel; omega⟩
    have hfirst := readSubscript_segment a ((accesses.map Access.segment).flatMap Segment.subscript)
    have hothers := ih (Nat.le_of_succ_le_succ hfuel)
    obtain ⟨front, hfront⟩ : ∃ front, a.segment.subscript = '[' :: front := by
      cases a.segment <;> exact ⟨_, rfl⟩
    rw [List.map_cons, List.flatMap_cons]
    rw [hfront, List.cons_append] at hfirst ⊢
    rw [readSubscripts, hfirst]
    simp [hothers]

theorem length_le_flatMap_subscript (segments : List Segment) :
    segments.length ≤ (segments.flatMap Segment.subscript).length := by
  induction segments with
  | nil => exact Nat.le_refl 0
  | cons s segments ih =>
    have hone : 1 ≤ s.subscript.length := by cases s <;> simp [Segment.subscript]
    rw [List.flatMap_cons, List.length_append, List.length_cons]
    omega

/-- A root with the subscripts of a path is a chain. -/
theorem Path.readChain?_subscripts (path : Path) :
    readChain? (path.root ++ path.segments.flatMap Segment.subscript) = some ⟨path.root, path.segments⟩ := by
  have hends : EndsName (path.segments.flatMap Segment.subscript) := by
    cases path.segments with
    | nil => rfl
    | cons s segments => cases s <;> rfl
  have hlength := length_le_flatMap_subscript path.segments
  have hne : path.root.isEmpty = false := by simpa using path.root_ne_nil
  have hread : readSubscripts (path.root ++ path.segments.flatMap Segment.subscript).length
      (path.segments.flatMap Segment.subscript) = some path.segments := by
    refine readSubscripts_accesses path.accesses ?_
    rw [List.length_append]
    rw [Path.segments, List.length_map] at hlength
    exact Nat.le_add_left_of_le hlength
  simp only [readChain?, takeName_append path.form hends, List.drop_left, hread, hne]
  rfl

end Reference

/-! ## Markers -/

namespace Marker

open Reference

theorem isRootChar_of_isNameChar {c : Char} (h : Text.isNameChar c = true) : isRootChar c = true := by
  rw [isRootChar, h, Bool.true_or]

theorem isRootChar_of_isBlank {c : Char} (h : Text.isBlank c = true) : isRootChar c = false := by
  rw [isRootChar, Bool.or_eq_false_iff]
  constructor
  · rw [← Bool.not_eq_true]
    intro hname
    rw [Expression.isBlank_of_isNameChar hname] at h
    cases h
  · rw [beq_eq_false_iff_ne]
    rintro rfl
    cases h

/-- The name that a text starts with goes as far as the root of the path that the text is. -/
theorem root?_of_path (path : Path) {inner : List Char} (htext : Text.trim inner = path.text)
    (henv : isEnvironment inner = false) : root? inner = some path.root := by
  obtain ⟨blanks, hstart, hblanks⟩ := Text.trimStart_eq_trim_append inner
  have hends : (path.accesses.flatMap Access.text ++ blanks).takeWhile isRootChar = [] := by
    cases path.accesses with
    | nil =>
      cases blanks with
      | nil => rfl
      | cons c blanks =>
        have hblank := isRootChar_of_isBlank (hblanks c List.mem_cons_self)
        exact List.takeWhile_cons_of_neg (by simp [hblank])
    | cons a accesses => cases a <;> rfl
  obtain ⟨c, cs, hroot⟩ := List.exists_cons_of_ne_nil path.root_ne_nil
  have hform := path.form
  rw [hroot, hasNameForm, Bool.and_eq_true] at hform
  have hchars : ∀ d ∈ cs, isRootChar d = true := fun d hd =>
    isRootChar_of_isNameChar (List.all_eq_true.mp hform.2 d hd)
  have hrootStart : isRootStart c = true := by rw [isRootStart, hform.1, Bool.true_or]
  rw [htext, Path.text, hroot, List.cons_append, List.cons_append, List.append_assoc] at hstart
  rw [root?, henv, hstart, hroot]
  simp only [hrootStart, if_true, List.takeWhile_append_of_pos hchars, hends, List.append_nil]
  rfl

theorem expression_of_path (path : Path) {inner : List Char} (htext : Text.trim inner = path.text)
    (henv : isEnvironment inner = false) (lookup : List Char → List Char) :
    expression inner lookup = path.root ++ path.segments.flatMap Segment.subscript := by
  have hname : environmentName? inner = none := by
    rw [isEnvironment] at henv
    simpa using henv
  simp only [expression, hname, htext, path.isPath_text, if_true, path.subscripts_text]

/-- The marker of a reference path is checked for the root of the path and is written as this root with one
subscript for each segment, in order: a number in brackets for digits, a quoted key for any other name. What is
written is read back as the root and the segments. -/
theorem path_read_back (path : Path) {inner : List Char} (htext : Text.trim inner = path.text)
    (henv : isEnvironment inner = false) (lookup : List Char → List Char) :
    root? inner = some path.root ∧
    expression inner lookup = path.root ++ path.segments.flatMap Segment.subscript ∧
    readChain? (expression inner lookup) = some ⟨path.root, path.segments⟩ := by
  have hexpression := expression_of_path path htext henv lookup
  exact ⟨root?_of_path path htext henv, hexpression, hexpression ▸ path.readChain?_subscripts⟩

/-- A path of names, of digits after a point and of digits in brackets. -/
def cellPath : Path where
  root := "rows".toList
  form := by decide +kernel
  accesses := [
    .position "10".toList (by decide +kernel),
    .field "0".toList (by decide +kernel) (by decide +kernel) (by decide +kernel),
    .field "2nd_id".toList (by decide +kernel) (by decide +kernel) (by decide +kernel)]

theorem cellPath_read_back :
    root? " rows[10].0.2nd_id\n".toList = some "rows".toList ∧
    expression " rows[10].0.2nd_id\n".toList = "rows[10][0]['2nd_id']".toList ∧
    readChain? "rows[10][0]['2nd_id']".toList =
      some ⟨"rows".toList, [.index "10".toList, .index "0".toList, .key "2nd_id".toList]⟩ := by
  have hwritten : cellPath.root ++ cellPath.segments.flatMap Segment.subscript = "rows[10][0]['2nd_id']".toList := by
    decide +kernel
  have hsegments : cellPath.segments = [.index "10".toList, .index "0".toList, .key "2nd_id".toList] := by
    decide +kernel
  have htext : Text.trim " rows[10].0.2nd_id\n".toList = cellPath.text := by decide +kernel
  have henv : isEnvironment " rows[10].0.2nd_id\n".toList = false := by decide +kernel
  obtain ⟨hroot, hexpression, hread⟩ := path_read_back cellPath htext henv lookup
  rw [hexpression, hwritten, hsegments] at hread
  exact ⟨hroot, hexpression.trans hwritten, hread⟩

end Marker

end FlowScript
