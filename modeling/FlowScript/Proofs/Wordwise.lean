import FlowScript.Proofs.Interpolation
import FlowScript.Program.Expression

/-!
# Expressions word by word

Operators, constants and paths are exchanged in passes over the text of an expression. No pass looks across
a space, so each of them can be followed word by word. Only the spaces that operators bring with them and the
test for a call depend on the neighbours.
-/
namespace FlowScript.Expression

/-- A pass that treats the words between spaces apart. -/
structure Wordwise (f : List Char → List Char) : Prop where
  nil : f [] = []
  space : ∀ w rest, f (w ++ ' ' :: rest) = f w ++ ' ' :: f rest

namespace Wordwise

variable {f g : List Char → List Char}

theorem comp (hg : Wordwise g) (hf : Wordwise f) : Wordwise fun cs => g (f cs) where
  nil := by rw [hf.nil, hg.nil]
  space w rest := by rw [hf.space, hg.space]

theorem cons_space (h : Wordwise f) (cs : List Char) : f (' ' :: cs) = ' ' :: f cs := by
  simpa [h.nil] using h.space [] cs

/-- Words with a space in front of each are passed one by one. -/
theorem flatMap (h : Wordwise f) (words : List (List Char)) :
    f (words.flatMap (' ' :: ·)) = words.flatMap fun w => ' ' :: f w := by
  induction words with
  | nil => exact h.nil
  | cons w words ih =>
    rw [List.flatMap_cons, List.flatMap_cons, List.cons_append, h.cons_space, ← ih]
    cases words with
    | nil => simp [h.nil]
    | cons next words =>
      rw [List.flatMap_cons, List.cons_append, h.space, h.cons_space, List.cons_append]

end Wordwise

/-! ## Operators -/

theorem exchangeEqual_wordwise : Wordwise exchangeEqual where
  nil := rfl
  space w rest := by
    fun_induction exchangeEqual w with
    | case1 cs ih => simp [exchangeEqual, ih]
    | case2 cs h ih =>
      rw [List.cons_append, List.cons_append, exchangeEqual, ih]
      · rfl
      · cases cs <;> simp_all
    | case3 c cs h1 h2 ih =>
      rw [List.cons_append, exchangeEqual, ih]
      · rfl
      · rcases cs with _ | ⟨d, _ | ⟨e, cs⟩⟩ <;> simp_all
      · cases cs <;> simp_all
    | case4 => simp [exchangeEqual]

theorem exchangeUnequal_wordwise : Wordwise exchangeUnequal where
  nil := rfl
  space w rest := by
    fun_induction exchangeUnequal w with
    | case1 cs ih => simp [exchangeUnequal, ih]
    | case2 c cs h ih =>
      rw [List.cons_append, exchangeUnequal, ih]
      · rfl
      · rcases cs with _ | ⟨d, _ | ⟨e, cs⟩⟩
        · simp
        · simp
        · rintro ds rfl heq
          simp only [List.cons_append, List.cons.injEq] at heq
          obtain ⟨rfl, rfl, -⟩ := heq
          exact h cs rfl rfl
    | case3 => simp [exchangeUnequal]

theorem exchangeAnd_wordwise : Wordwise exchangeAnd where
  nil := rfl
  space w rest := by
    fun_induction exchangeAnd w with
    | case1 cs ih => simp [exchangeAnd, ih]
    | case2 c cs h ih =>
      rw [List.cons_append, exchangeAnd, ih]
      · rfl
      · cases cs <;> simp_all
    | case3 => simp [exchangeAnd]

theorem exchangeOr_wordwise : Wordwise exchangeOr where
  nil := rfl
  space w rest := by
    fun_induction exchangeOr w with
    | case1 cs ih => simp [exchangeOr, ih]
    | case2 c cs h ih =>
      rw [List.cons_append, exchangeOr, ih]
      · rfl
      · cases cs <;> simp_all
    | case3 => simp [exchangeOr]

theorem exchangeNot_wordwise : Wordwise exchangeNot where
  nil := rfl
  space w rest := by
    fun_induction exchangeNot w with
    | case1 cs h ih => cases cs <;> simp_all [exchangeNot]
    | case2 cs h ih => cases cs <;> simp_all [exchangeNot]
    | case3 c cs h ih => simp [exchangeNot, ih]
    | case4 => simp [exchangeNot]

theorem exchangeOperators_wordwise : Wordwise exchangeOperators :=
  exchangeNot_wordwise.comp (exchangeOr_wordwise.comp (exchangeAnd_wordwise.comp
    (exchangeUnequal_wordwise.comp exchangeEqual_wordwise)))

/-- The characters that operators to be exchanged are made of. -/
def operatorChars : List Char := ['=', '!', '&', '|']

theorem exchangeOperators_cons {c : Char} (h : c ∉ operatorChars) (cs : List Char) :
    exchangeOperators (c :: cs) = c :: exchangeOperators cs := by
  simp only [operatorChars, List.mem_cons, List.not_mem_nil, or_false, not_or] at h
  obtain ⟨hequal, hbang, hand, hor⟩ := h
  simp [exchangeOperators, exchangeEqual, exchangeUnequal, exchangeAnd, exchangeOr, exchangeNot, hequal, hbang, hand,
    hor]

theorem exchangeOperators_of_forall {cs : List Char} (h : ∀ c ∈ cs, c ∉ operatorChars) :
    exchangeOperators cs = cs := by
  induction cs with
  | nil => rfl
  | cons c cs ih =>
    rw [exchangeOperators_cons (h c List.mem_cons_self), ih fun d hd => h d (List.mem_cons_of_mem _ hd)]

/-! ## Words and paths -/

theorem pieces_append {c : Char} (hc : Text.isWord c = false) (cs rest : List Char) :
    pieces (cs ++ c :: rest) = pieces cs ++ .other c :: pieces rest := by
  induction cs with
  | nil => simp [pieces, hc]
  | cons d cs ih =>
    rw [List.cons_append, pieces, pieces, ih]
    split_ifs
    · rcases pieces cs with _ | ⟨_ | _, _⟩ <;> rfl
    · rfl

theorem exchangeConstants_wordwise : Wordwise exchangeConstants where
  nil := rfl
  space w rest := by
    rw [exchangeConstants, pieces_append (by decide), List.flatMap_append]
    rfl

theorem links_append (ps qs : List Piece) :
    links (ps ++ .other ' ' :: qs) = links ps ++ .other ' ' :: links qs := by
  induction ps with
  | nil => rfl
  | cons p ps ih =>
    cases p with
    | other c => rw [List.cons_append, links, links, ih, List.cons_append]
    | word w =>
      rw [List.cons_append, links, links, ih]
      rcases links ps with _ | ⟨_ | c, ls⟩
      · rfl
      · rfl
      · -- Only a point looks past itself, and a chain behind it is there with or without the space.
        by_cases hc : c = '.'
        · subst hc
          rcases ls with _ | ⟨(_ | ⟨v, vs⟩) | _, _⟩
          · rfl
          · rfl
          · by_cases hv : startsName v = true <;> simp [hv]
          · rfl
        · simp [hc]

/-- A space in front of a chain does not block it. -/
theorem subscriptLinks_space (ls : List Link) : subscriptLinks (some ' ') ls = subscriptLinks none ls := by
  cases ls with
  | nil => rfl
  | cons l ls => cases l <;> rfl

theorem subscriptLinks_append (before : Option Char) (ls more : List Link) :
    subscriptLinks before (ls ++ .other ' ' :: more) =
      subscriptLinks before ls ++ ' ' :: subscriptLinks none more := by
  induction ls generalizing before with
  | nil => exact congrArg (' ' :: ·) (subscriptLinks_space more)
  | cons l ls ih =>
    cases l with
    | other c => rw [List.cons_append, subscriptLinks, subscriptLinks, ih, List.cons_append]
    | chain words => rw [List.cons_append, subscriptLinks, subscriptLinks, ih, List.append_assoc]

theorem exchangePaths_wordwise : Wordwise exchangePaths where
  nil := rfl
  space w rest := by
    rw [exchangePaths, pieces_append (by decide), links_append, subscriptLinks_append]
    rfl

/-- What becomes of the words of an expression before the spaces are put in order. -/
def exchangeWords (cs : List Char) : List Char := exchangePaths (exchangeConstants (exchangeOperators cs))

theorem exchangeWords_wordwise : Wordwise exchangeWords :=
  exchangePaths_wordwise.comp (exchangeConstants_wordwise.comp exchangeOperators_wordwise)

/-! ## Spaces -/

/-- A word, or a word that has brought a space on each side with it. -/
def Padded (core word : List Char) : Prop := word = core ∨ word = ' ' :: (core ++ [' '])

theorem collapseSpaces_append {w : List Char} (h : ' ' ∉ w) (cs : List Char) :
    collapseSpaces (w ++ cs) = w ++ collapseSpaces cs := by
  induction w with
  | nil => rfl
  | cons c w ih =>
    rw [List.mem_cons, not_or] at h
    rw [List.cons_append, collapseSpaces, ih h.2, List.cons_append]
    exact fun heq => h.1 heq.symm

theorem collapseSpaces_double {cs : List Char} (h : cs.head? = some ' ') :
    collapseSpaces (' ' :: cs) = collapseSpaces cs := by
  rw [collapseSpaces, h, beq_self_eq_true, if_pos rfl]

theorem collapseSpaces_word {w : List Char} (hne : w ≠ []) (h : ' ' ∉ w) (cs : List Char) :
    collapseSpaces (' ' :: (w ++ cs)) = ' ' :: (w ++ collapseSpaces cs) := by
  obtain ⟨c, w, rfl⟩ := List.exists_cons_of_ne_nil hne
  have hc : c ≠ ' ' := fun heq => h (heq ▸ List.mem_cons_self)
  rw [collapseSpaces, collapseSpaces_append h, if_neg (by simpa using hc)]

theorem collapseSpaces_cons (cs : List Char) :
    collapseSpaces (' ' :: cs) = collapseSpaces cs ∨ collapseSpaces (' ' :: cs) = ' ' :: collapseSpaces cs := by
  rw [collapseSpaces]
  split_ifs
  · exact .inl rfl
  · exact .inr rfl

/-- One more space at the end is kept or merged with the one before it. -/
theorem collapseSpaces_concat (cs : List Char) :
    collapseSpaces (cs ++ [' ']) = collapseSpaces cs ∨ collapseSpaces (cs ++ [' ']) = collapseSpaces cs ++ [' '] := by
  induction cs with
  | nil => exact .inr rfl
  | cons c cs ih =>
    by_cases hc : c = ' '
    · subst hc
      cases cs with
      | nil => exact .inl rfl
      | cons d cs =>
        rw [List.cons_append, collapseSpaces, collapseSpaces]
        by_cases hd : d = ' '
        · simpa [hd] using ih
        · simpa [hd] using ih
    · have hnone : ' ' ∉ [c] := by simpa using fun heq : ' ' = c => hc heq.symm
      have hcons (z : List Char) : collapseSpaces (c :: z) = c :: collapseSpaces z := collapseSpaces_append hnone z
      rw [List.cons_append, hcons, hcons]
      simpa using ih

/-- The spaces around padded words merge with those between the words. -/
theorem collapseSpaces_words {α : Type} {core word : α → List Char} {items : List α}
    (hcore : ∀ item ∈ items, core item ≠ [] ∧ ' ' ∉ core item)
    (hword : ∀ item ∈ items, Padded (core item) (word item)) :
    collapseSpaces (items.flatMap (fun item => ' ' :: word item) ++ [' ']) =
      items.flatMap (fun item => ' ' :: core item) ++ [' '] := by
  induction items with
  | nil => rfl
  | cons item items ih =>
    have hothers := ih (fun other h => hcore other (List.mem_cons_of_mem _ h))
      (fun other h => hword other (List.mem_cons_of_mem _ h))
    have hspace : (items.flatMap (fun item => ' ' :: word item) ++ [' ']).head? = some ' ' := by
      cases items <;> rfl
    obtain ⟨hne, hnone⟩ := hcore item List.mem_cons_self
    rw [List.flatMap_cons, List.flatMap_cons, List.append_assoc, List.append_assoc, ← hothers]
    rcases hword item List.mem_cons_self with h | h
    · rw [h, List.cons_append, collapseSpaces_word hne hnone, List.cons_append]
    · -- The space in front merges with the one between the words, the space behind with that of the next word.
      rw [h, List.cons_append, List.cons_append, collapseSpaces_double rfl, List.append_assoc,
        collapseSpaces_word hne hnone, List.singleton_append, collapseSpaces_double hspace, List.cons_append]

/-! ## Fields -/

section Fields

variable (bound : String → Bool) (target : String)

/-- Where a space or nothing is in front, a field is not blocked. -/
theorem readFields_space (ps : List Piece) :
    readFields bound target (some ' ') ps = readFields bound target none ps := by
  cases ps with
  | nil => rfl
  | cons p ps => cases p <;> rfl

theorem segment_eq (cs : List Char) : segment bound (some target) cs =
    readFields bound target none (pieces (collapseSpaces (exchangeWords cs))) := rfl

/-- A space at the start of a segment stays or goes, and nothing else changes. -/
theorem segment_space (cs : List Char) :
    segment bound (some target) (' ' :: cs) = segment bound (some target) cs ∨
      segment bound (some target) (' ' :: cs) = ' ' :: segment bound (some target) cs := by
  rw [segment_eq, segment_eq, exchangeWords_wordwise.cons_space]
  rcases collapseSpaces_cons (exchangeWords cs) with h | h
  · exact .inl (by rw [h])
  · have hpieces (z : List Char) : pieces (' ' :: z) = .other ' ' :: pieces z := pieces_append (by decide) [] z
    exact .inr (by rw [h, hpieces, readFields, readFields_space])

end Fields

/-! ## Protected text -/

/-- The characters with which protected text starts. -/
def shieldChars : List Char := ['\'', '"', '$']

theorem protected?_eq_none {c : Char} (h : c ∉ shieldChars) (cs : List Char) : protected? (c :: cs) = none := by
  simp only [shieldChars, List.mem_cons, List.not_mem_nil, or_false, not_or] at h
  obtain ⟨hsingle, hdouble, hdollar⟩ := h
  have hread : Marker.read? (c :: cs) = none := by
    rw [Marker.read?]
    simp [hdollar]
  simp [protected?, hsingle, hdouble, hread]

theorem split_of_protected?_none {c : Char} {cs : List Char} (h : protected? (c :: cs) = none) :
    split (c :: cs) = (split cs).push c := by
  rw [split]
  split
  · rename_i found hfound
    cases h.symm.trans hfound
  · rfl

theorem split_of_protected?_some {cs : List Char} {f : Found} (h : protected? cs = some f) :
    split cs = ⟨([], f.shield) :: (split f.rest).parts, (split f.rest).tail⟩ := by
  rw [split]
  split
  · rename_i found hfound
    obtain rfl := Option.some.inj (h.symm.trans hfound)
    rfl
  · rename_i hnone
    cases h.symm.trans hnone

@[simp] theorem split_nil : split [] = ⟨[], []⟩ := by
  rw [split]
  rfl

/-- Text that starts no protected text is put in front of the first plain part. -/
theorem split_append {text : List Char} (h : ∀ c ∈ text, c ∉ shieldChars) (rest : List Char) :
    split (text ++ rest) = text.foldr Split.push (split rest) := by
  induction text with
  | nil => rfl
  | cons c text ih =>
    have hnone := protected?_eq_none (h c List.mem_cons_self) (text ++ rest)
    rw [List.cons_append, split_of_protected?_none hnone, ih fun d hd => h d (List.mem_cons_of_mem _ hd),
      List.foldr_cons]

namespace Split

theorem foldr_push_end (text tail : List Char) : text.foldr push ⟨[], tail⟩ = ⟨[], text ++ tail⟩ := by
  induction text with
  | nil => rfl
  | cons c text ih => rw [List.foldr_cons, ih]; rfl

theorem foldr_push_part (text before : List Char) (shield : Protected) (parts : List (List Char × Protected))
    (tail : List Char) :
    text.foldr push ⟨(before, shield) :: parts, tail⟩ = ⟨(text ++ before, shield) :: parts, tail⟩ := by
  induction text with
  | nil => rfl
  | cons c text ih => rw [List.foldr_cons, ih]; rfl

/-- The program text of the parts of an expression, one after the other. -/
def written (bound : String → Bool) (target : Option String) (lookup : List Char → List Char) (s : Split) :
    List Char :=
  (s.parts.flatMap fun part => segment bound target part.1 ++ part.2.code lookup) ++ segment bound target s.tail

section Written

variable (bound : String → Bool) (target : Option String) (lookup : List Char → List Char)

theorem written_end (tail : List Char) : written bound target lookup ⟨[], tail⟩ = segment bound target tail := by
  simp [written]

theorem written_part (before : List Char) (shield : Protected) (parts : List (List Char × Protected))
    (tail : List Char) :
    written bound target lookup ⟨(before, shield) :: parts, tail⟩ =
      segment bound target before ++ (shield.code lookup ++ written bound target lookup ⟨parts, tail⟩) := by
  simp [written]

end Written

end Split

section Code

variable (bound : String → Bool) (target : String) (lookup : List Char → List Char)

theorem code_eq_written (s : String) : code bound (some target) s lookup =
    String.ofList (Text.trim ((split s.toList).written bound (some target) lookup)) := rfl

theorem written_push_space (s : Split) :
    (s.push ' ').written bound (some target) lookup = s.written bound (some target) lookup ∨
      (s.push ' ').written bound (some target) lookup = ' ' :: s.written bound (some target) lookup := by
  obtain ⟨_ | ⟨⟨before, shield⟩, parts⟩, tail⟩ := s
  · rw [Split.push, Split.written_end, Split.written_end]
    exact segment_space bound target tail
  · rw [Split.push, Split.written_part, Split.written_part]
    rcases segment_space bound target before with h | h
    · exact .inl (by rw [h])
    · exact .inr (by rw [h, List.cons_append])

/-- A space in front of an expression does not matter. -/
theorem code_space (cs : List Char) : code bound (some target) (String.ofList (' ' :: cs)) lookup =
    code bound (some target) (String.ofList cs) lookup := by
  have hsplit : split (' ' :: cs) = (split cs).push ' ' :=
    split_of_protected?_none (protected?_eq_none (by decide) cs)
  have htrim (z : List Char) : Text.trim (' ' :: z) = Text.trim z := by
    rw [Text.trim, Text.trimStart, List.dropWhile_cons_of_pos (by decide)]
    rfl
  rw [code_eq_written, code_eq_written, String.toList_ofList, String.toList_ofList, hsplit]
  rcases written_push_space bound target lookup (split cs) with h | h
  · rw [h]
  · rw [h, htrim]

end Code

end FlowScript.Expression
