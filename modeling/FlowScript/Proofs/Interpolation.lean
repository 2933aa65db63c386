import FlowScript.Proofs.Names
import FlowScript.Proofs.Reading

/-!
# Interpolated strings that are read back

An interpolated string is read by the rules of such strings: a backslash and a character stand for one
character, a doubled brace is a brace, and a single brace opens an expression. The main statement is that
the string which a text with markers is resolved to reads as the text between the markers, with the
expressions of the markers in between.
-/
namespace FlowScript

namespace Marker.Split

/-- The literal parts, the end included. -/
def literals (s : Split) : List (List Char) := s.parts.map (·.1) ++ [s.tail]

/-- The text that is split: each inner text is put back between its braces. -/
def text (s : Split) : List Char :=
  s.parts.flatMap (fun part => part.1 ++ '$' :: '{' :: (part.2 ++ ['}'])) ++ s.tail

end Marker.Split

namespace Literal

open Text

/-- The characters that no expression inside an interpolated string may have, the closing brace apart. -/
def expressionStops : List Char := ['{', '}', '"', '\\', '#', '!', ':', '=', '\n', '\r']

mutual

/-- An interpolated string from a literal part on, as literal parts and expressions. -/
def readLiteral : List Char → Option Marker.Split
  | [] => none
  | ['"'] => some ⟨[], []⟩
  | '\\' :: c :: cs => do
    let d ← unescape? c
    (readLiteral cs).map (·.push d)
  | '{' :: '{' :: cs => (readLiteral cs).map (·.push '{')
  | '}' :: '}' :: cs => (readLiteral cs).map (·.push '}')
  | '{' :: cs => readExpression [] cs
  | c :: cs =>
    if c == '}' || c == '"' || c == '\\' || isLineBreak c then none else (readLiteral cs).map (·.push c)

/-- An interpolated string from within an expression on, of which some characters are already read. -/
def readExpression (seen : List Char) : List Char → Option Marker.Split
  | [] => none
  | '}' :: cs =>
    if seen.isEmpty then none else (readLiteral cs).map fun s => ⟨([], seen) :: s.parts, s.tail⟩
  | c :: cs => if expressionStops.contains c then none else readExpression (seen ++ [c]) cs

end

/-- The literal parts and the expressions of an interpolated string. -/
def readInterpolated (s : String) : Option Marker.Split :=
  match s.toList with
  | 'f' :: '"' :: cs => readLiteral cs
  | _ => none

end Literal

/-! ## The parts of a text with markers -/

namespace Marker

variable {c : Char} {cs : List Char}

theorem read?_marker {inner : List Char} (hne : inner ≠ []) (hinner : '}' ∉ inner) (rest : List Char) :
    read? ('$' :: '{' :: (inner ++ '}' :: rest)) = some ⟨inner, rest⟩ := by
  have hother : ∀ d ∈ inner, (d != '}') = true := fun d hd => by
    simpa using fun heq : d = '}' => hinner (heq ▸ hd)
  have hstop : ('}' != '}') = false := by decide
  simp [read?, List.takeWhile_append_of_pos hother, List.dropWhile_append_of_pos hother, hne]

/-- A marker at the start of a text is written out. -/
theorem read?_eq_some {m : Found} (h : read? cs = some m) :
    m.inner ≠ [] ∧ '}' ∉ m.inner ∧ cs = '$' :: '{' :: (m.inner ++ '}' :: m.rest) := by
  unfold read? at h
  split at h
  · rename_i tail
    dsimp only at h
    split at h
    · cases h
    · rename_i d rest hdrop
      split_ifs at h with hempty
      obtain rfl := Option.some.inj h
      have hd : d = '}' := by
        have hhead := List.head?_dropWhile_not (· != '}') tail
        rw [hdrop] at hhead
        simpa using hhead
      have hsplit := List.takeWhile_append_dropWhile (p := (· != '}')) (l := tail)
      rw [hdrop, hd] at hsplit
      refine ⟨by simpa using hempty, fun hmem => ?_, by rw [hsplit]⟩
      simpa using List.mem_takeWhile_imp hmem
  · cases h

theorem read?_append {m : Found} (h : read? cs = some m) (more : List Char) :
    read? (cs ++ more) = some ⟨m.inner, m.rest ++ more⟩ := by
  obtain ⟨hne, hinner, rfl⟩ := read?_eq_some h
  simpa using read?_marker hne hinner (m.rest ++ more)

theorem split_of_read?_some {m : Found} (h : read? cs = some m) :
    split cs = ⟨([], m.inner) :: (split m.rest).parts, (split m.rest).tail⟩ := by
  rw [split]
  split
  · rename_i found hfound
    obtain rfl := Option.some.inj (h.symm.trans hfound)
    rfl
  · rename_i hnone
    cases h.symm.trans hnone

theorem split_of_read?_none (h : read? (c :: cs) = none) : split (c :: cs) = (split cs).push c := by
  rw [split]
  split
  · rename_i found hfound
    cases h.symm.trans hfound
  · rfl

@[simp] theorem split_nil : split [] = ⟨[], []⟩ := by
  rw [split]
  rfl

namespace Split

/-- The literal part that a text starts with. -/
def first (s : Split) : List Char :=
  match s.parts with
  | [] => s.tail
  | part :: _ => part.1

@[simp] theorem text_push (c : Char) (s : Split) : (s.push c).text = c :: s.text := by
  obtain ⟨_ | ⟨part, parts⟩, tail⟩ := s <;> rfl

/-- A character that is put in front changes the first literal part only. -/
theorem mem_literals_push {literal : List Char} {s : Split} (h : literal ∈ (s.push c).literals) :
    literal = c :: s.first ∨ literal ∈ s.literals := by
  obtain ⟨_ | ⟨part, parts⟩, tail⟩ := s
  · exact .inl (List.mem_singleton.mp h)
  · rcases List.mem_cons.mp h with rfl | h
    · exact .inl rfl
    · exact .inr (List.mem_cons_of_mem _ h)

theorem foldr_push_end (text tail : List Char) : text.foldr push ⟨[], tail⟩ = ⟨[], text ++ tail⟩ := by
  induction text with
  | nil => rfl
  | cons c text ih => rw [List.foldr_cons, ih]; rfl

theorem foldr_push_part (text before inner : List Char) (parts : List (List Char × List Char)) (tail : List Char) :
    text.foldr push ⟨(before, inner) :: parts, tail⟩ = ⟨(text ++ before, inner) :: parts, tail⟩ := by
  induction text with
  | nil => rfl
  | cons c text ih => rw [List.foldr_cons, ih]; rfl

theorem first_mem_literals (s : Split) : s.first ∈ s.literals := by
  obtain ⟨_ | ⟨part, parts⟩, tail⟩ := s <;> simp [first, literals]

theorem first_prefix_text (s : Split) : ∃ more, s.text = s.first ++ more := by
  obtain ⟨_ | ⟨part, parts⟩, tail⟩ := s
  · exact ⟨[], by simp [text, first]⟩
  · simp [text, first]

end Split

/-- A text is empty, starts with a marker, or starts with a character of a literal part. -/
theorem split_induction {motive : List Char → Prop} (nil : motive [])
    (marker : ∀ {cs : List Char} {m : Found}, read? cs = some m → motive m.rest → motive cs)
    (literal : ∀ {c : Char} {cs : List Char}, read? (c :: cs) = none → motive cs → motive (c :: cs))
    (cs : List Char) : motive cs := by
  fun_induction split cs with
  | case1 cs m h _ _ ih => exact marker h ih
  | case2 => exact nil
  | case3 c cs h ih => exact literal h ih

/-- Nothing of a text is lost by splitting it. -/
theorem text_split (cs : List Char) : (split cs).text = cs := by
  induction cs using split_induction with
  | nil => rw [split_nil]; rfl
  | marker h ih =>
    rw [split_of_read?_some h]
    obtain ⟨-, -, rfl⟩ := read?_eq_some h
    rw [Split.text] at ih
    simp [Split.text, ih]
  | literal h ih => rw [split_of_read?_none h, Split.text_push, ih]

/-- No literal part of a text has a marker in it. -/
theorem split_of_mem_literals {cs part : List Char} (h : part ∈ (split cs).literals) :
    (split part).parts = [] := by
  induction cs using split_induction generalizing part with
  | nil =>
    rw [split_nil] at h
    obtain rfl := List.mem_singleton.mp h
    rw [split_nil]
  | marker hread ih =>
    rw [split_of_read?_some hread] at h
    rcases List.mem_cons.mp h with rfl | h
    · rw [split_nil]
    · exact ih h
  | @literal c rest hread ih =>
    rw [split_of_read?_none hread] at h
    rcases Split.mem_literals_push h with rfl | h
    · -- A marker at the start of the literal part would be one of the whole text.
      have hnone : read? (c :: (split rest).first) = none := by
        cases hfirst : read? (c :: (split rest).first) with
        | none => rfl
        | some m =>
          obtain ⟨more, hmore⟩ := (split rest).first_prefix_text
          rw [text_split] at hmore
          have hwhole := read?_append hfirst more
          rw [List.cons_append, ← hmore, hread] at hwhole
          cases hwhole
      have hrest := ih (Split.first_mem_literals _)
      rw [split_of_read?_none hnone, Split.push, hrest]
    · exact ih h

end Marker

namespace Reference

theorem not_mem_expressionStops {c : Char} (h : Text.isNameChar c = true ∨ Text.isDecimalDigit c = true) :
    c ∉ Literal.expressionStops := by
  have hall : ∀ d ∈ Literal.expressionStops, Text.isNameChar d = false ∧ Text.isDecimalDigit d = false :=
    List.all_iff_forall_prop.mp (by decide)
  intro hmem
  simp [hall c hmem] at h

/-- What comes after the root of a path starts with a segment, or is its end. -/
theorem isSegments_head {cs : List Char} (h : isSegments cs = true) :
    atEnd cs = true ∨ ∃ c rest, cs = c :: rest ∧ (c = '.' ∨ c = '[') := by
  rw [isSegments] at h
  split at h
  · rename_i f hf
    unfold segment? at hf
    split at hf
    · exact .inr ⟨_, _, rfl, .inl rfl⟩
    · exact .inr ⟨_, _, rfl, .inr rfl⟩
    · cases hf
  · exact .inl h

/-- A path is a name followed by segments. -/
theorem eq_append_of_isPath {cs : List Char} (h : isPath cs = true) :
    ∃ root tail, cs = root ++ tail ∧ takeName cs = root ∧ hasNameForm root = true ∧ isSegments tail = true := by
  cases cs with
  | nil => simp [isPath, takeName] at h
  | cons c rest =>
    by_cases hstart : Text.isNameStart c = true
    · have hname : takeName (c :: rest) = c :: rest.takeWhile Text.isNameChar := by rw [takeName, if_pos hstart]
      have hsplit := List.takeWhile_append_dropWhile (p := Text.isNameChar) (l := rest)
      refine ⟨_, rest.dropWhile Text.isNameChar, by rw [List.cons_append, hsplit], hname, ?_, ?_⟩
      · rw [hasNameForm, hstart, List.all_takeWhile, Bool.and_true]
      · have hdrop : rest.drop (rest.takeWhile Text.isNameChar).length = rest.dropWhile Text.isNameChar := by
          nth_rewrite 2 [← hsplit]
          exact List.drop_left
        rw [isPath, hname, List.length_cons, List.drop_succ_cons, hdrop, Bool.and_eq_true] at h
        exact h.2
    · simp [isPath, takeName, hstart] at h

theorem isNameChar_of_hasNameForm {cs : List Char} (h : hasNameForm cs = true) {c : Char} (hc : c ∈ cs) :
    Text.isNameChar c = true := by
  cases cs with
  | nil => cases hc
  | cons d rest =>
    rw [hasNameForm, Bool.and_eq_true] at h
    rcases List.mem_cons.mp hc with rfl | hc
    · have hstart := h.1
      simp only [Text.isNameStart, Text.isNameChar, Char.isAlphanum, Bool.or_eq_true] at hstart ⊢
      tauto
    · exact List.all_eq_true.mp h.2 c hc

/-- The root of a path is the text before its first segment. -/
theorem isNamed_head {cs : List Char} (h : isPath cs = true) : isNamed (head cs) = true := by
  obtain ⟨root, tail, rfl, -, hroot, htail⟩ := eq_append_of_isPath h
  have hstop : Text.isNameChar '.' = false ∧ Text.isNameChar '[' = false := by decide
  have hhead : head (root ++ tail) = root ++ head tail := by
    refine List.takeWhile_append_of_pos fun c hc => ?_
    have hname := isNameChar_of_hasNameForm hroot hc
    simp only [Bool.and_eq_true, bne_iff_ne]
    constructor <;> (rintro rfl; simp [hstop] at hname)
  rw [hhead, isNamed_iff]
  rcases isSegments_head htail with hend | ⟨c, rest, rfl, hc⟩
  · match tail, hend with
    | [], _ => exact .inl (by simpa [head] using hroot)
    | [c], hend =>
      obtain rfl : c = '\n' := by simpa [atEnd] using hend
      exact .inr ⟨root, rfl, hroot⟩
  · have hempty : head (c :: rest) = [] := by rcases hc with rfl | rfl <;> rfl
    rw [hempty, List.append_nil]
    exact .inl hroot

/-- The subscripts of a path, whatever its segments are. -/
theorem subscripts_of_isPath {cs : List Char} (h : isPath cs = true) :
    subscripts cs = takeName cs ++ (segments (cs.drop (takeName cs).length)).flatMap Segment.subscript := by
  rw [subscripts, if_pos (isNamed_head h)]

theorem not_mem_expressionStops_of_segment? {cs : List Char} {f : Found} (h : segment? cs = some f) {c : Char}
    (hc : c ∈ f.segment.subscript) : c ∉ Literal.expressionStops := by
  have hframe : ∀ d ∈ ['[', ']', '\''], d ∉ Literal.expressionStops := List.all_iff_forall_prop.mp (by decide)
  have hindex {ds : List Char} (hds : ∀ d ∈ ds, d ∉ Literal.expressionStops)
      (hc : c ∈ (Segment.index ds).subscript) : c ∉ Literal.expressionStops := by
    simp only [Segment.subscript, List.mem_cons, List.mem_append, List.not_mem_nil, or_false] at hc
    rcases hc with rfl | hc | rfl
    · exact hframe _ (by decide)
    · exact hds c hc
    · exact hframe _ (by decide)
  have hkey {name : List Char} (hname : ∀ d ∈ name, d ∉ Literal.expressionStops)
      (hc : c ∈ (Segment.key name).subscript) : c ∉ Literal.expressionStops := by
    simp only [Segment.subscript, List.mem_cons, List.mem_append, List.not_mem_nil, or_false] at hc
    rcases hc with rfl | rfl | hc | rfl | rfl
    · exact hframe _ (by decide)
    · exact hframe _ (by decide)
    · exact hname c hc
    · exact hframe _ (by decide)
    · exact hframe _ (by decide)
  unfold segment? at h
  split at h
  · dsimp only at h
    split_ifs at h
    obtain rfl := Option.some.inj h
    have hname : ∀ d ∈ List.takeWhile Text.isNameChar ‹_›, d ∉ Literal.expressionStops := fun d hd =>
      not_mem_expressionStops (.inl (List.mem_takeWhile_imp hd))
    dsimp only [Segment.named] at hc
    split_ifs at hc
    · exact hindex hname hc
    · exact hkey hname hc
  · dsimp only at h
    split at h
    · split_ifs at h
      obtain rfl := Option.some.inj h
      exact hindex (fun d hd => not_mem_expressionStops (.inr (List.mem_takeWhile_imp hd))) hc
    · cases h
  · cases h

theorem not_mem_expressionStops_of_mem_subscript {cs : List Char} {segment : Segment} {c : Char}
    (h : segment ∈ segments cs) (hc : c ∈ segment.subscript) : c ∉ Literal.expressionStops := by
  fun_induction segments cs with
  | case1 cs f hf _ ih =>
    rcases List.mem_cons.mp h with rfl | h
    · exact not_mem_expressionStops_of_segment? hf hc
    · exact ih h
  | case2 => cases h
  | case3 _ _ _ ih => exact ih h

end Reference

namespace Marker

theorem isNameChar_of_environmentName? {inner name : List Char} (h : environmentName? inner = some name)
    {c : Char} (hc : c ∈ name) : Text.isNameChar c = true := by
  unfold environmentName? at h
  split at h
  · rename_i rest _
    dsimp only at h
    split_ifs at h
    obtain rfl := Option.some.inj h
    cases rest with
    | nil => cases hc
    | cons d rest =>
      rw [takeName] at hc
      split_ifs at hc with hstart
      · have hform : hasNameForm (d :: rest.takeWhile Text.isNameChar) = true := by
          rw [hasNameForm, hstart, List.all_takeWhile, Bool.and_true]
        exact Reference.isNameChar_of_hasNameForm hform hc
      · cases hc
  · cases h

theorem lookup_fits {name : List Char} (h : ∀ c ∈ name, Text.isNameChar c = true) :
    lookup name ≠ [] ∧ ∀ c ∈ lookup name, c ∉ Literal.expressionStops := by
  have hopen : ∀ c ∈ "os.environ.get('".toList, c ∉ Literal.expressionStops :=
    List.all_iff_forall_prop.mp (by decide +kernel)
  have hclose : ∀ c ∈ "', '')".toList, c ∉ Literal.expressionStops :=
    List.all_iff_forall_prop.mp (by decide +kernel)
  have hend : "', '')".toList ≠ [] := by decide +kernel
  unfold lookup
  refine ⟨List.append_ne_nil_of_right_ne_nil _ hend,
    List.forall_mem_append.mpr ⟨List.forall_mem_append.mpr ⟨hopen, fun c hc => ?_⟩, hclose⟩⟩
  exact Reference.not_mem_expressionStops (.inl (h c hc))

/-- An expression of a marker can stand inside an interpolated string. -/
theorem expression_fits {inner : List Char}
    (h : isEnvironment inner = true ∨ Reference.isPath (Text.trim inner) = true) :
    expression inner ≠ [] ∧ ∀ c ∈ expression inner, c ∉ Literal.expressionStops := by
  unfold expression
  cases hname : environmentName? inner with
  | some name => exact lookup_fits fun c hc => isNameChar_of_environmentName? hname hc
  | none =>
    have hpath : Reference.isPath (Text.trim inner) = true := by simpa [isEnvironment, hname] using h
    obtain ⟨root, tail, htext, hroot, hform, -⟩ := Reference.eq_append_of_isPath hpath
    dsimp only
    rw [if_pos hpath, Reference.subscripts_of_isPath hpath, hroot]
    refine ⟨fun hnil => ?_, fun c hc => ?_⟩
    · rw [(List.append_eq_nil_iff.mp hnil).1] at hform
      cases hform
    · rcases List.mem_append.mp hc with hc | hc
      · exact Reference.not_mem_expressionStops (.inl (Reference.isNameChar_of_hasNameForm hform hc))
      · obtain ⟨segment, hsegment, hc⟩ := List.mem_flatMap.mp hc
        exact Reference.not_mem_expressionStops_of_mem_subscript hsegment hc

end Marker

/-! ## Reading -/

namespace Literal

open Text Marker

theorem readLiteral_interpolatedChar (c : Char) (cs : List Char) :
    readLiteral (interpolatedChar c ++ cs) = (readLiteral cs).map (·.push c) := by
  unfold interpolatedChar
  split_ifs with hslash hquote hfeed hreturn htab hopen hclose
  · obtain rfl : c = '\\' := by simpa using hslash
    rfl
  · obtain rfl : c = '"' := by simpa using hquote
    rfl
  · obtain rfl : c = '\n' := by simpa using hfeed
    rfl
  · obtain rfl : c = '\r' := by simpa using hreturn
    rfl
  · obtain rfl : c = '\t' := by simpa using htab
    rfl
  · obtain rfl : c = '{' := by simpa using hopen
    rfl
  · obtain rfl : c = '}' := by simpa using hclose
    rfl
  · have hplain : (c == '}' || c == '"' || c == '\\' || isLineBreak c) = false := by simp_all [isLineBreak]
    rw [List.singleton_append, readLiteral, if_neg (by simp [hplain])]
    all_goals (intros; simp_all)

/-- Literal text is put in front of what is read after it. -/
theorem readLiteral_text (text cs : List Char) :
    readLiteral (text.flatMap interpolatedChar ++ cs) = (readLiteral cs).map fun s => text.foldr Split.push s := by
  induction text with
  | nil => simp
  | cons c text ih =>
    rw [List.flatMap_cons, List.append_assoc, readLiteral_interpolatedChar, ih, Option.map_map]
    rfl

theorem readExpression_text {expression : List Char} (h : ∀ c ∈ expression, c ∉ expressionStops)
    (seen cs : List Char) (hne : seen ++ expression ≠ []) :
    readExpression seen (expression ++ '}' :: cs) =
      (readLiteral cs).map fun s => ⟨([], seen ++ expression) :: s.parts, s.tail⟩ := by
  induction expression generalizing seen with
  | nil =>
    rw [List.append_nil] at hne ⊢
    rw [List.nil_append, readExpression, if_neg (by simpa using hne)]
  | cons c expression ih =>
    have hc := h c List.mem_cons_self
    have hends : c ≠ '}' := fun heq => hc (heq ▸ by decide)
    rw [List.cons_append, readExpression, if_neg (by simpa using hc),
      ih (fun d hd => h d (List.mem_cons_of_mem _ hd)) (seen ++ [c]) (by simp), List.append_assoc]
    · rfl
    · simpa using hends

/-- A brace that is not doubled opens an expression. -/
theorem readLiteral_expression {expression : List Char} (hne : expression ≠ [])
    (h : ∀ c ∈ expression, c ∉ expressionStops) (cs : List Char) :
    readLiteral ('{' :: (expression ++ '}' :: cs)) =
      (readLiteral cs).map fun s => ⟨([], expression) :: s.parts, s.tail⟩ := by
  have hread := readExpression_text h [] cs (by simpa using hne)
  obtain ⟨c, rest, rfl⟩ := List.exists_cons_of_ne_nil hne
  have hc : c ≠ '{' := fun heq => h c List.mem_cons_self (heq ▸ by decide)
  -- An expression never starts with a brace, so the brace before it is not read as a doubled one.
  rw [List.cons_append] at hread ⊢
  rw [readLiteral, hread, List.nil_append]
  rintro ds heq
  exact hc (List.cons.inj heq).1

/-- The parts of an interpolated string are read one after the other. -/
theorem readLiteral_parts {parts : List (List Char × List Char)}
    (h : ∀ part ∈ parts, expression part.2 ≠ [] ∧ ∀ c ∈ expression part.2, c ∉ expressionStops)
    (tail : List Char) :
    readLiteral (parts.flatMap (interpolatedPart lookup) ++ tail.flatMap interpolatedChar ++ ['"']) =
      some ⟨parts.map fun part => (part.1, expression part.2), tail⟩ := by
  induction parts with
  | nil =>
    rw [List.flatMap_nil, List.nil_append, readLiteral_text, readLiteral, Option.map_some, Split.foldr_push_end,
      List.append_nil, List.map_nil]
  | cons part parts ih =>
    obtain ⟨hne, hfits⟩ := h part List.mem_cons_self
    have hothers := ih fun other hother => h other (List.mem_cons_of_mem _ hother)
    have hread := readLiteral_expression hne hfits
      (parts.flatMap (interpolatedPart lookup) ++ tail.flatMap interpolatedChar ++ ['"'])
    rw [hothers, Option.map_some] at hread
    have hpart : (part :: parts).flatMap (interpolatedPart lookup) ++ tail.flatMap interpolatedChar ++ ['"'] =
        part.1.flatMap interpolatedChar ++ '{' :: (expression part.2 ++ '}' ::
          (parts.flatMap (interpolatedPart lookup) ++ tail.flatMap interpolatedChar ++ ['"'])) := by
      simp [interpolatedPart]
    rw [hpart, readLiteral_text, hread, Option.map_some, Split.foldr_push_part, List.append_nil, List.map_cons]

/-- A text with markers that are environment variables or paths becomes an interpolated string. The string
reads as the expressions of the markers with the text between the markers around them. This text has no marker
in it, and with the markers put back it is the original text. -/
theorem interpolated_read_back {s : String} (hmarker : hasMarker s = true) (hsingle : single? s.toList = none)
    (hinner : ∀ inner ∈ inners s, isEnvironment inner = true ∨ Reference.isPath (trim inner) = true) :
    (resolve s).kind = .interpolated ∧
    ∃ parts tail, readInterpolated (resolve s).code = some ⟨parts, tail⟩ ∧
      parts.map (·.2) = (inners s).map expression ∧
      ⟨(parts.map (·.1)).zip (inners s), tail⟩ = split s.toList ∧
      (∀ literal ∈ parts.map (·.1) ++ [tail], hasMarker (String.ofList literal) = false) ∧
      Split.text ⟨(parts.map (·.1)).zip (inners s), tail⟩ = s.toList := by
  obtain ⟨parts, tail, hsplit⟩ : ∃ parts tail, split s.toList = ⟨parts, tail⟩ := ⟨_, _, rfl⟩
  have hinners : inners s = parts.map (·.2) := by rw [inners, hsplit, Split.inners]
  have hne : parts ≠ [] := by
    rintro rfl
    simp [hasMarker, hinners] at hmarker
  have hresolve : resolve s = ⟨.interpolated, String.ofList (interpolated lookup ⟨parts, tail⟩)⟩ := by
    simp [resolve, hsingle, hsplit, hne]
  have hread := readLiteral_parts
    (fun part hpart => expression_fits (hinner part.2 (hinners ▸ List.mem_map_of_mem hpart))) tail
  have hliterals : (parts.map fun part => (part.1, expression part.2)).map (·.1) = parts.map (·.1) := by simp
  have hzip : parts = (parts.map (·.1)).zip (parts.map (·.2)) := List.zip_of_prod rfl rfl
  refine ⟨by rw [hresolve], parts.map fun part => (part.1, expression part.2), tail, ?_, ?_, ?_, ?_, ?_⟩
  · rw [hresolve, readInterpolated, String.toList_ofList]
    exact hread
  · rw [hinners, List.map_map, List.map_map]
    rfl
  · rw [hliterals, hinners, ← hzip, hsplit]
  · rw [hliterals]
    intro literal hliteral
    have hmem : literal ∈ (split s.toList).literals := by rwa [hsplit, Split.literals]
    simp [hasMarker, inners, Split.inners, split_of_mem_literals hmem]
  · rw [hliterals, hinners, ← hzip, ← hsplit, text_split]

/-- A text with braces next to its markers, and with the start of a marker that is not closed. -/
def bracedText : String := "\x7b$\x7brows[0].id\x7d\x7d$$\x7b ENV:HOME\x7d\n\"$\x7b"

theorem bracedText_read_back :
    inners bracedText = ["rows[0].id".toList, " ENV:HOME".toList] ∧
    ∃ parts tail, readInterpolated (resolve bracedText).code = some ⟨parts, tail⟩ ∧
      parts.map (·.2) = (inners bracedText).map expression ∧
      Split.text ⟨(parts.map (·.1)).zip (inners bracedText), tail⟩ = bracedText.toList := by
  have hinners : inners bracedText = ["rows[0].id".toList, " ENV:HOME".toList] := by decide +kernel
  have hmarker : hasMarker bracedText = true := by rw [hasMarker, hinners]; rfl
  have hinner : ∀ inner ∈ inners bracedText,
      isEnvironment inner = true ∨ Reference.isPath (trim inner) = true := by
    rw [hinners]
    intro inner h
    rcases List.mem_pair.mp h with rfl | rfl
    · exact .inr (by decide +kernel)
    · exact .inl (by decide +kernel)
  obtain ⟨-, parts, tail, hread, hexpressions, -, -, htext⟩ :=
    interpolated_read_back hmarker (by decide +kernel) hinner
  exact ⟨hinners, parts, tail, hread, hexpressions, htext⟩

end Literal

end FlowScript
