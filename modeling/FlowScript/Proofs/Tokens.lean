import FlowScript.Proofs.Outline
import FlowScript.Proofs.Wordwise

/-!
# Tokens of expressions

The tokens of an expression, and what each of them is translated to. A translation depends on the names in
scope and, for a name that may be called, on the token after it. The passes over an expression turn a single
token into its translation: operators, constants and paths are exchanged first, and then fields are read.
-/
namespace FlowScript.Expression

/-! ## Tokens -/

/-- The words that stand for values. -/
inductive Constant where
  | truth
  | falsity
  | null
  | undefined

def Constant.text : Constant → List Char
  | .truth => ['t', 'r', 'u', 'e']
  | .falsity => ['f', 'a', 'l', 's', 'e']
  | .null => ['n', 'u', 'l', 'l']
  | .undefined => ['u', 'n', 'd', 'e', 'f', 'i', 'n', 'e', 'd']

def Constant.translation : Constant → List Char
  | .truth => ['T', 'r', 'u', 'e']
  | .falsity => ['F', 'a', 'l', 's', 'e']
  | .null => ['N', 'o', 'n', 'e']
  | .undefined => ['N', 'o', 'n', 'e']

inductive Operator where
  | openParen
  | closeParen
  | comma
  | plus
  | minus
  | times
  | divide
  | modulo
  | less
  | greater
  | atMost
  | atLeast
  | equal
  | unequal
  | identical
  | different
  | both
  | either
  | negation

def Operator.text : Operator → List Char
  | .openParen => ['(']
  | .closeParen => [')']
  | .comma => [',']
  | .plus => ['+']
  | .minus => ['-']
  | .times => ['*']
  | .divide => ['/']
  | .modulo => ['%']
  | .less => ['<']
  | .greater => ['>']
  | .atMost => ['<', '=']
  | .atLeast => ['>', '=']
  | .equal => ['=', '=']
  | .unequal => ['!', '=']
  | .identical => ['=', '=', '=']
  | .different => ['!', '=', '=']
  | .both => ['&', '&']
  | .either => ['|', '|']
  | .negation => ['!']

def Operator.translation : Operator → List Char
  | .identical => ['=', '=']
  | .different => ['!', '=']
  | .both => ['a', 'n', 'd']
  | .either => ['o', 'r']
  | .negation => ['n', 'o', 't']
  | o => o.text

/-- A name of the basic alphabet that is not one of the constants. -/
structure Name where
  text : List Char
  form : hasNameForm text = true
  plain : ∀ c : Constant, c.text ≠ text

/-- The tokens outside of quotes and markers. -/
inductive Plain where
  | name (n : Name)
  /-- A root and one or more segments after points. -/
  | path (root segment : Name) (more : List Name)
  | number (digits : List Char) (hne : digits ≠ []) (hdigits : ∀ c ∈ digits, c.isDigit = true)
  | constant (c : Constant)
  | operator (o : Operator)

/-- The mark around a quoted string. -/
def quoteMark (double : Bool) : Char := if double then '"' else '\''

inductive Token where
  | plain (p : Plain)
  | quoted (double : Bool) (body : List Char) (closed : quoteMark double ∉ body)
  | marker (inner : List Char) (closed : '}' ∉ inner) (path : Reference.isPath (Text.trim inner) = true)

def Plain.text : Plain → List Char
  | .name n => n.text
  | .path root segment more => root.text ++ (segment :: more).flatMap fun s => '.' :: s.text
  | .number digits _ _ => digits
  | .constant c => c.text
  | .operator o => o.text

def Token.text : Token → List Char
  | .plain p => p.text
  | .quoted double body _ => quoteMark double :: (body ++ [quoteMark double])
  | .marker inner _ _ => '$' :: '{' :: (inner ++ ['}'])

/-! ## Translations -/

def subscript (name : List Char) : List Char := '[' :: '\'' :: (name ++ ['\'', ']'])

/-- A name is a field of the item, unless it is fixed, reserved or in scope. -/
def Name.field (bound : String → Bool) (n : Name) : List Char :=
  let name := String.ofList n.text
  if fixedNames.contains name || isKeyword name || bound name then n.text else "item".toList ++ subscript n.text

/-- A name that is called is no field. -/
def Plain.translation (bound : String → Bool) (called : Bool) : Plain → List Char
  | .name n => if called then n.text else n.field bound
  | .path root segment more => root.field bound ++ (segment :: more).flatMap fun s => subscript s.text
  | .number digits _ _ => digits
  | .constant c => c.translation
  | .operator o => o.translation

def Token.translation (bound : String → Bool) (called : Bool) : Token → List Char
  | .plain p => p.translation bound called
  | .quoted double body _ => quoteMark double :: (body ++ [quoteMark double])
  | .marker inner _ _ => Marker.expression inner

def Plain.isOpen : Plain → Bool
  | .operator .openParen => true
  | _ => false

def Token.isOpen : Token → Bool
  | .plain p => p.isOpen
  | _ => false

/-- The translations of tokens; a token is called if an opening parenthesis follows it. -/
def translations (bound : String → Bool) : List Token → List (List Char)
  | [] => []
  | t :: rest => t.translation bound (rest.head?.any Token.isOpen) :: translations bound rest

/-! ## Names -/

theorem isNameChar_range {c : Char} (h : Text.isNameChar c = true) : 0x30 ≤ c.toNat ∧ c.toNat ≤ 0x7A := by
  unfold Text.isNameChar Char.isAlphanum Char.isAlpha Char.isUpper Char.isLower Char.isDigit at h
  simp only [Bool.or_eq_true, Bool.and_eq_true, decide_eq_true_eq, beq_iff_eq, ge_iff_le,
    UInt32.le_iff_toNat_le] at h
  rcases h with ((⟨hlo, hhi⟩ | ⟨hlo, hhi⟩) | ⟨hlo, hhi⟩) | rfl
  · exact ⟨Nat.le_trans (by decide) hlo, Nat.le_trans hhi (by decide)⟩
  · exact ⟨Nat.le_trans (by decide) hlo, hhi⟩
  · exact ⟨hlo, Nat.le_trans hhi (by decide)⟩
  · decide

theorem isWord_of_isNameChar {c : Char} (h : Text.isNameChar c = true) : Text.isWord c = true := by
  have hrange := isNameChar_range h
  rw [Text.isWord, if_pos (by omega), h]

theorem isBlank_of_isNameChar {c : Char} (h : Text.isNameChar c = true) : Text.isBlank c = false := by
  have hrange := isNameChar_range h
  have hspace : c ≠ ' ' := by
    rintro rfl
    exact absurd hrange.1 (by decide)
  simp only [Text.isBlank, Bool.or_eq_false_iff, Bool.and_eq_false_iff, beq_eq_false_iff_ne, ne_eq,
    decide_eq_false_iff_not, hspace, not_false_eq_true, true_and]
  omega

theorem isDigit_of_isNameStart {c : Char} (h : Text.isNameStart c = true) : c.isDigit = false := by
  rw [← Bool.not_eq_true]
  intro hdigit
  unfold Text.isNameStart Char.isAlpha Char.isUpper Char.isLower at h
  unfold Char.isDigit at hdigit
  simp only [Bool.or_eq_true, Bool.and_eq_true, decide_eq_true_eq, beq_iff_eq, ge_iff_le,
    UInt32.le_iff_toNat_le] at h hdigit
  have hnine : c.toNat ≤ 0x39 := hdigit.2
  have hletter : 0x41 ≤ c.toNat := by
    rcases h with (⟨hlo, -⟩ | ⟨hlo, -⟩) | rfl
    · exact hlo
    · exact Nat.le_trans (by decide) hlo
    · decide
  omega

theorem isNameChar_of_isDigit {c : Char} (h : c.isDigit = true) : Text.isNameChar c = true := by
  simp [Text.isNameChar, Char.isAlphanum, h]

/-- A word of name characters that is none of the constants. -/
structure IsWord (w : List Char) : Prop where
  ne_nil : w ≠ []
  chars : ∀ c ∈ w, Text.isNameChar c = true
  plain : constant w = w

theorem constant_eq {w : List Char} (h : ∀ c : Constant, c.text ≠ w) : constant w = w := by
  have hne (c : Constant) : String.ofList w ≠ String.ofList c.text := fun heq =>
    h c (String.ofList_injective heq).symm
  have htrue : String.ofList w ≠ "true" := hne .truth
  have hfalse : String.ofList w ≠ "false" := hne .falsity
  have hnull : String.ofList w ≠ "null" := hne .null
  have hundefined : String.ofList w ≠ "undefined" := hne .undefined
  simp [constant, htrue, hfalse, hnull, hundefined]

namespace Name

variable (n : Name)

theorem isNameChar {c : Char} (h : c ∈ n.text) : Text.isNameChar c = true :=
  Reference.isNameChar_of_hasNameForm n.form h

theorem exists_cons : ∃ c cs, n.text = c :: cs ∧ Text.isNameStart c = true ∧ cs.all Text.isNameChar = true := by
  have hform := n.form
  cases htext : n.text with
  | nil => simp [htext, hasNameForm] at hform
  | cons c cs =>
    rw [htext, hasNameForm, Bool.and_eq_true] at hform
    exact ⟨c, cs, rfl, hform⟩

theorem startsName : startsName n.text = true := by
  obtain ⟨c, cs, htext, hstart, -⟩ := n.exists_cons
  rw [htext]
  exact hstart

theorem isWord : IsWord n.text where
  ne_nil := by
    obtain ⟨c, cs, htext, -⟩ := n.exists_cons
    exact htext ▸ List.cons_ne_nil c cs
  chars c hc := n.isNameChar hc
  plain := constant_eq n.plain

/-- A name is no index. -/
theorem named_eq_key : Reference.Segment.named n.text = .key n.text := by
  obtain ⟨c, cs, htext, hstart, -⟩ := n.exists_cons
  rw [htext, Reference.Segment.named, List.all_cons, isDigit_of_isNameStart hstart, Bool.false_and,
    if_neg Bool.false_ne_true]

theorem takeName_append {rest : List Char} (h : rest.takeWhile Text.isNameChar = []) :
    takeName (n.text ++ rest) = n.text := by
  obtain ⟨c, cs, htext, hstart, hchars⟩ := n.exists_cons
  rw [htext, List.cons_append, takeName, if_pos hstart, List.takeWhile_append_of_pos (List.all_eq_true.mp hchars), h,
    List.append_nil]

end Name

theorem isWord_digits {digits : List Char} (hne : digits ≠ []) (h : ∀ c ∈ digits, c.isDigit = true) :
    IsWord digits where
  ne_nil := hne
  chars c hc := isNameChar_of_isDigit (h c hc)
  plain := by
    refine constant_eq fun constant => ?_
    rintro rfl
    have hletter : ∃ c ∈ constant.text, c.isDigit = false := by
      cases constant <;> exact List.any_iff_exists_prop.mp (by decide)
    obtain ⟨c, hc, hdigit⟩ := hletter
    simp [h c hc] at hdigit

/-! ## Exchanged words -/

theorem not_mem_of_isNameChar {chars : List Char} (hchars : ∀ d ∈ chars, Text.isNameChar d = false) {c : Char}
    (h : Text.isNameChar c = true) : c ∉ chars := by
  intro hmem
  simp [hchars c hmem] at h

theorem isNameChar_of_mem_operatorChars : ∀ d ∈ operatorChars, Text.isNameChar d = false :=
  List.all_iff_forall_prop.mp (by decide)

theorem isNameChar_of_mem_shieldChars : ∀ d ∈ shieldChars, Text.isNameChar d = false :=
  List.all_iff_forall_prop.mp (by decide)

namespace IsWord

variable {w : List Char} (h : IsWord w)
include h

theorem pieces_eq : pieces w = [.word w] := by
  obtain ⟨c, cs, rfl⟩ := List.exists_cons_of_ne_nil h.ne_nil
  have hchars := h.chars
  clear h
  induction cs generalizing c with
  | nil => simp [pieces, isWord_of_isNameChar (hchars c List.mem_cons_self)]
  | cons d cs ih =>
    have hc := isWord_of_isNameChar (hchars c List.mem_cons_self)
    rw [pieces, if_pos hc, ih d fun e he => hchars e (List.mem_cons_of_mem _ he)]

theorem exchangeWords_eq : exchangeWords w = w := by
  have hoperators : exchangeOperators w = w :=
    exchangeOperators_of_forall fun c hc => not_mem_of_isNameChar isNameChar_of_mem_operatorChars (h.chars c hc)
  have hconstants : exchangeConstants w = w := by simp [exchangeConstants, h.pieces_eq, h.plain]
  rw [exchangeWords, hoperators, hconstants, exchangePaths, h.pieces_eq]
  simp [links, subscriptLinks, chainText, List.intercalate]

end IsWord

/-! ## Paths -/

/-- Segments after points. -/
def dotted (names : List Name) : List Char := names.flatMap fun n => '.' :: n.text

theorem isNameChar_or_eq_of_mem_dotted {root : Name} {names : List Name} {c : Char}
    (h : c ∈ root.text ++ dotted names) : Text.isNameChar c = true ∨ c = '.' := by
  rcases List.mem_append.mp h with hc | hc
  · exact .inl (root.isNameChar hc)
  · obtain ⟨n, -, hc⟩ := List.mem_flatMap.mp hc
    rcases List.mem_cons.mp hc with rfl | hc
    · exact .inr rfl
    · exact .inl (n.isNameChar hc)

theorem takeWhile_dotted (names : List Name) : (dotted names).takeWhile Text.isNameChar = [] := by
  cases names <;> rfl

theorem segments_dotted (names : List Name) :
    Reference.segments (dotted names) = names.map fun n => .key n.text := by
  induction names with
  | nil => rw [dotted, List.flatMap_nil, Reference.segments]; rfl
  | cons n names ih =>
    have hname : (n.text ++ dotted names).takeWhile Text.isNameChar = n.text := by
      rw [List.takeWhile_append_of_pos fun c hc => n.isNameChar hc, takeWhile_dotted, List.append_nil]
    have hsegment : Reference.segment? (dotted (n :: names)) = some ⟨.key n.text, dotted names⟩ := by
      change Reference.segment? ('.' :: (n.text ++ dotted names)) = _
      rw [Reference.segment?, hname, if_neg (by simpa using n.isWord.ne_nil), List.drop_left, n.named_eq_key]
    rw [Reference.segments]
    split
    · rename_i f hf
      obtain rfl := Option.some.inj (hsegment.symm.trans hf)
      rw [ih, List.map_cons]
    · rename_i hnone
      cases hsegment.symm.trans hnone

theorem subscripts_dotted (root : Name) (names : List Name) :
    Reference.subscripts (root.text ++ dotted names) = root.text ++ names.flatMap fun n => subscript n.text := by
  have hstop : Text.isNameChar '.' = false ∧ Text.isNameChar '[' = false := by decide
  have hroot : ∀ c ∈ root.text, (c != '.' && c != '[') = true := by
    intro c hc
    have hname := root.isNameChar hc
    simp only [Bool.and_eq_true, bne_iff_ne]
    constructor <;> (rintro rfl; simp [hstop] at hname)
  have hend : Reference.head (dotted names) = [] := by cases names <;> rfl
  have hhead : Reference.head (root.text ++ dotted names) = root.text := by
    rw [Reference.head, List.takeWhile_append_of_pos hroot]
    exact (congrArg (root.text ++ ·) hend).trans (List.append_nil _)
  rw [Reference.subscripts, hhead, if_pos (isNamed_iff.mpr (.inl root.form))]
  simp only [root.takeName_append (takeWhile_dotted names), List.drop_left, segments_dotted, List.flatMap_map]
  rfl

theorem pieces_dotted {w : List Char} (hw : IsWord w) (names : List Name) :
    pieces (w ++ dotted names) = .word w :: names.flatMap fun n => [.other '.', .word n.text] := by
  induction names generalizing w with
  | nil => rw [dotted, List.flatMap_nil, List.append_nil, hw.pieces_eq, List.flatMap_nil]
  | cons n names ih =>
    change pieces (w ++ '.' :: (n.text ++ dotted names)) = _
    rw [pieces_append (by decide), hw.pieces_eq, ih n.isWord]
    rfl

theorem links_dotted (w : List Char) (names : List Name) :
    links (.word w :: names.flatMap fun n => [.other '.', .word n.text]) = [.chain (w :: names.map (·.text))] := by
  induction names generalizing w with
  | nil => rfl
  | cons n names ih =>
    change links (.word w :: .other '.' :: .word n.text :: names.flatMap fun n => [.other '.', .word n.text]) = _
    rw [links, links, ih]
    simp [n.startsName]

theorem chainText_dotted (w : List Char) (names : List Name) :
    chainText (w :: names.map (·.text)) = w ++ dotted names := by
  induction names generalizing w with
  | nil => simp [chainText, dotted]
  | cons n names ih =>
    simp only [chainText] at ih ⊢
    rw [List.map_cons, List.intercalate_cons_cons, ih]
    simp [dotted]

theorem exchangeWords_dotted (root segment : Name) (more : List Name) :
    exchangeWords (root.text ++ dotted (segment :: more)) =
      root.text ++ (segment :: more).flatMap fun n => subscript n.text := by
  have hoperators : exchangeOperators (root.text ++ dotted (segment :: more)) =
      root.text ++ dotted (segment :: more) := by
    refine exchangeOperators_of_forall fun c hc => ?_
    rcases isNameChar_or_eq_of_mem_dotted hc with hname | rfl
    · exact not_mem_of_isNameChar isNameChar_of_mem_operatorChars hname
    · decide
  have hconstants : exchangeConstants (root.text ++ dotted (segment :: more)) =
      root.text ++ dotted (segment :: more) := by
    rw [exchangeConstants, pieces_dotted root.isWord, List.flatMap_cons, List.flatMap_assoc, dotted]
    simp [root.isWord.plain, (Name.isWord _).plain]
  rw [exchangeWords, hoperators, hconstants, exchangePaths, pieces_dotted root.isWord, links_dotted, subscriptLinks,
    chainText_dotted, ← subscripts_dotted]
  simp [subscriptLinks, root.startsName, blocksChain]

/-! ## Single tokens -/

namespace Plain

/-- A token after operators, constants and paths are exchanged. -/
def core : Plain → List Char
  | .name n => n.text
  | .path root segment more => root.text ++ (segment :: more).flatMap fun n => subscript n.text
  | .number digits _ _ => digits
  | .constant c => c.translation
  | .operator o => o.translation

theorem exchangeWords_text (p : Plain) : Padded p.core (exchangeWords p.text) := by
  cases p with
  | name n => exact .inl n.isWord.exchangeWords_eq
  | path root segment more => exact .inl (exchangeWords_dotted root segment more)
  | number digits hne hdigits => exact .inl (isWord_digits hne hdigits).exchangeWords_eq
  | constant c => cases c <;> exact .inl (by decide)
  | operator o =>
    cases o with
    | both => exact .inr (by decide)
    | either => exact .inr (by decide)
    | negation => exact .inr (by decide)
    | _ => exact .inl (by decide)

theorem not_mem_shieldChars (p : Plain) : ∀ c ∈ p.text, c ∉ shieldChars := by
  have hname {c : Char} (h : Text.isNameChar c = true) : c ∉ shieldChars :=
    not_mem_of_isNameChar isNameChar_of_mem_shieldChars h
  cases p with
  | name n => exact fun c hc => hname (n.isNameChar hc)
  | path root segment more =>
    intro c hc
    rcases isNameChar_or_eq_of_mem_dotted hc with hc | rfl
    · exact hname hc
    · decide
  | number digits hne hdigits => exact fun c hc => hname (isNameChar_of_isDigit (hdigits c hc))
  | constant c => cases c <;> exact List.all_iff_forall_prop.mp (by decide)
  | operator o => cases o <;> exact List.all_iff_forall_prop.mp (by decide)

end Plain

/-! ## Blanks -/

/-- A text with something in it but no blank. -/
structure Solid (cs : List Char) : Prop where
  ne_nil : cs ≠ []
  chars : ∀ c ∈ cs, Text.isBlank c = false

theorem IsWord.solid {w : List Char} (h : IsWord w) : Solid w :=
  ⟨h.ne_nil, fun c hc => isBlank_of_isNameChar (h.chars c hc)⟩

theorem subscript_solid (n : Name) : Solid (subscript n.text) where
  ne_nil := List.cons_ne_nil _ _
  chars c hc := by
    simp only [subscript, List.mem_cons, List.mem_append, List.not_mem_nil, or_false] at hc
    rcases hc with rfl | rfl | hc | rfl | rfl
    · rfl
    · rfl
    · exact isBlank_of_isNameChar (n.isNameChar hc)
    · rfl
    · rfl

namespace Solid

variable {cs ds : List Char}

theorem append (h : Solid cs) (hds : ∀ c ∈ ds, Text.isBlank c = false) : Solid (cs ++ ds) :=
  ⟨List.append_ne_nil_of_left_ne_nil h.ne_nil _, List.forall_mem_append.mpr ⟨h.chars, hds⟩⟩

theorem subscripts (h : Solid cs) (names : List Name) : Solid (cs ++ names.flatMap fun n => subscript n.text) := by
  refine h.append fun c hc => ?_
  obtain ⟨n, -, hc⟩ := List.mem_flatMap.mp hc
  exact (subscript_solid n).chars c hc

theorem space_not_mem (h : Solid cs) : ' ' ∉ cs := by
  intro hmem
  have hblank := h.chars ' ' hmem
  exact absurd hblank (by decide)

end Solid

theorem Name.field_solid (bound : String → Bool) (n : Name) : Solid (n.field bound) := by
  rw [Name.field]
  split_ifs
  · exact n.isWord.solid
  · have hitem : Solid "item".toList := ⟨by decide, List.all_iff_forall_prop.mp (by decide)⟩
    exact hitem.append (subscript_solid n).chars

namespace Plain

theorem core_solid (p : Plain) : Solid p.core := by
  cases p with
  | name n => exact n.isWord.solid
  | path root segment more => exact root.isWord.solid.subscripts (segment :: more)
  | number digits hne hdigits => exact (isWord_digits hne hdigits).solid
  | constant c => cases c <;> exact ⟨by decide, List.all_iff_forall_prop.mp (by decide)⟩
  | operator o => cases o <;> exact ⟨by decide, List.all_iff_forall_prop.mp (by decide)⟩

theorem translation_solid (bound : String → Bool) (called : Bool) (p : Plain) :
    Solid (p.translation bound called) := by
  cases p with
  | name n =>
    rw [translation]
    split_ifs
    · exact n.isWord.solid
    · exact n.field_solid bound
  | path root segment more => exact (root.field_solid bound).subscripts (segment :: more)
  | number digits hne hdigits => exact (isWord_digits hne hdigits).solid
  | constant c => exact core_solid (.constant c)
  | operator o => exact core_solid (.operator o)

end Plain

/-! ## Fields -/

/-- The pieces of a text that is at its end or goes on with a space. -/
def AtSpace (rest : List Piece) : Prop := rest = [] ∨ ∃ more, rest = .other ' ' :: more

def subscriptPieces (n : Name) : List Piece := [.other '[', .other '\'', .word n.text, .other '\'', .other ']']

theorem pieces_subscript (n : Name) (rest : List Char) :
    pieces (subscript n.text ++ rest) = subscriptPieces n ++ pieces rest := by
  have hopen : Text.isWord '[' = false := by decide
  have hquote : Text.isWord '\'' = false := by decide
  have hclose : Text.isWord ']' = false := by decide
  have htext : subscript n.text ++ rest = [] ++ '[' :: ([] ++ '\'' :: (n.text ++ '\'' :: ([] ++ ']' :: rest))) := by
    simp [subscript]
  rw [htext, pieces_append hopen, pieces_append hquote, pieces_append hquote, n.isWord.pieces_eq,
    pieces_append hclose]
  rfl

theorem pieces_subscripts {w : List Char} (hw : IsWord w) (names : List Name) :
    pieces (w ++ names.flatMap fun n => subscript n.text) = .word w :: names.flatMap subscriptPieces := by
  have hnames : pieces (names.flatMap fun n => subscript n.text) = names.flatMap subscriptPieces := by
    induction names with
    | nil => rfl
    | cons n names ih => rw [List.flatMap_cons, pieces_subscript, ih, List.flatMap_cons]
  rw [← hnames, ← List.singleton_append, ← hw.pieces_eq]
  cases names with
  | nil => simp [pieces]
  | cons n names =>
    have hopen : Text.isWord '[' = false := by decide
    rw [List.flatMap_cons, subscript, List.cons_append, pieces_append hopen]
    exact congrArg (pieces w ++ ·) (pieces_append hopen [] _).symm

section Fields

variable (bound : String → Bool)

theorem readFields_atSpace {rest : List Piece} (h : AtSpace rest) (before : Option Char) :
    readFields bound "item" before rest = readFields bound "item" none rest := by
  rcases h with rfl | ⟨more, rfl⟩ <;> rfl

/-- The names between quotes are no fields. -/
theorem readFields_subscripts (names : List Name) {rest : List Piece} (h : AtSpace rest) (before : Option Char) :
    readFields bound "item" before (names.flatMap subscriptPieces ++ rest) =
      (names.flatMap fun n => subscript n.text) ++ readFields bound "item" none rest := by
  induction names generalizing before with
  | nil => exact readFields_atSpace bound h before
  | cons n names ih =>
    simp [subscriptPieces, subscript, readFields, blocksField, ih]

theorem readFields_fixed {w : List Char} (h : fixedNames.contains (String.ofList w) = true) (before : Option Char)
    (rest : List Piece) :
    readFields bound "item" before (.word w :: rest) = w ++ readFields bound "item" w.getLast? rest := by
  simp only [readFields, h, Bool.true_or, Bool.not_true, Bool.and_false, Bool.false_eq_true, if_false]

/-- The first word of a token is a field or a function that is called. -/
theorem readFields_name (n : Name) (rest : List Piece) :
    readFields bound "item" none (.word n.text :: rest) =
      (if isCallOrArgument rest then n.text else n.field bound) ++ readFields bound "item" n.text.getLast? rest := by
  have hfield : n.field bound = if fixedNames.contains (String.ofList n.text) || isKeyword (String.ofList n.text) ||
      bound (String.ofList n.text) then n.text else fieldText "item" n.text := rfl
  rw [hfield]
  simp only [readFields, n.startsName, blocksField, Option.any_none, Bool.not_false, Bool.true_and]
  generalize fieldText "item" n.text = field
  congr 1
  cases isCallOrArgument rest <;>
    cases (fixedNames.contains (String.ofList n.text) || isKeyword (String.ofList n.text) ||
      bound (String.ofList n.text)) <;> rfl

theorem readFields_digits {digits : List Char} (h : ∀ c ∈ digits, c.isDigit = true) (before : Option Char)
    (rest : List Piece) :
    readFields bound "item" before (.word digits :: rest) =
      digits ++ readFields bound "item" digits.getLast? rest := by
  have hstarts : startsName digits = false := by
    cases digits with
    | nil => rfl
    | cons c digits =>
      cases hc : Text.isNameStart c with
      | false => exact hc
      | true =>
        have hdigit := isDigit_of_isNameStart hc
        simp [h c List.mem_cons_self] at hdigit
  simp [readFields, hstarts]

theorem readFields_others (cs : List Char) {rest : List Piece} (h : AtSpace rest) (before : Option Char) :
    readFields bound "item" before (cs.map .other ++ rest) = cs ++ readFields bound "item" none rest := by
  induction cs generalizing before with
  | nil => exact readFields_atSpace bound h before
  | cons c cs ih => rw [List.map_cons, List.cons_append, readFields, ih, List.cons_append]

/-- The exchanged text of a token is translated; what follows it only tells whether it is called. -/
theorem Plain.readFields_core (p : Plain) {rest : List Piece} (h : AtSpace rest) :
    readFields bound "item" none (pieces p.core ++ rest) =
      p.translation bound (isCallOrArgument rest) ++ readFields bound "item" none rest := by
  have hfixed {w : List Char} (hpieces : pieces w = [.word w])
      (hw : fixedNames.contains (String.ofList w) = true) :
      readFields bound "item" none (pieces w ++ rest) = w ++ readFields bound "item" none rest := by
    rw [hpieces, List.singleton_append, readFields_fixed bound hw, readFields_atSpace bound h]
  have hother {w : List Char} (hpieces : pieces w = w.map .other) :
      readFields bound "item" none (pieces w ++ rest) = w ++ readFields bound "item" none rest := by
    rw [hpieces, readFields_others bound w h]
  cases p with
  | name n =>
    rw [core, n.isWord.pieces_eq, List.singleton_append, readFields_name, readFields_atSpace bound h, translation]
  | path root segment more =>
    -- A bracket follows the root of a path, so what follows the path never makes it a call.
    have hopen : isCallOrArgument ((segment :: more).flatMap subscriptPieces ++ rest) = false := rfl
    rw [core, pieces_subscripts root.isWord, List.cons_append, readFields_name, readFields_subscripts bound _ h,
      hopen, if_neg Bool.false_ne_true, translation, List.append_assoc]
  | number digits hne hdigits =>
    rw [core, (isWord_digits hne hdigits).pieces_eq, List.singleton_append, readFields_digits bound hdigits,
      readFields_atSpace bound h, translation]
  | constant c => cases c <;> exact hfixed (by decide) (by decide)
  | operator o =>
    cases o with
    | both => exact hfixed (by decide) (by decide)
    | either => exact hfixed (by decide) (by decide)
    | negation => exact hfixed (by decide) (by decide)
    | _ => exact hother (by decide)

/-- Only an opening parenthesis makes the name before it a call. -/
theorem Plain.isCallOrArgument_core (p : Plain) (rest : List Piece) :
    isCallOrArgument (.other ' ' :: (pieces p.core ++ rest)) = p.isOpen := by
  cases p with
  | name n => rw [core, n.isWord.pieces_eq]; rfl
  | path root segment more => rw [core, pieces_subscripts root.isWord]; rfl
  | number digits hne hdigits => rw [core, (isWord_digits hne hdigits).pieces_eq]; rfl
  | constant c => cases c <;> rfl
  | operator o => cases o <;> rfl

end Fields

end FlowScript.Expression
