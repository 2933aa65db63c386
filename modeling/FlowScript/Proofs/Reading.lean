import FlowScript.Proofs.Blame
import FlowScript.Proofs.Lookup
import FlowScript.Proofs.OneLine
import Mathlib.Data.Bool.AllAny
import Mathlib.Data.Nat.Digits.Defs

/-!
# Literals that are read back

The literals of a program are read by a grammar of their own: `None`, the truth values, signed integers in
base ten, quoted texts with escapes, lists and mappings. Blanks may stand between the parts of a list or
a mapping, and a comma may follow the last one. The main statement is that the program text of a value
without markers is on one line and reads as this value and nothing else. Integers that are too long to be
written are the exception.
-/
namespace FlowScript

/-- What was read at the start of a text, and what follows it. -/
structure Reading (α : Type) where
  value : α
  rest : List Char

namespace Text

/-- The character that a backslash and the given one stand for; escapes by number are not read. -/
def unescape? : Char → Option Char
  | '\\' => some '\\'
  | '\'' => some '\''
  | '"' => some '"'
  | 'a' => some '\x07'
  | 'b' => some '\x08'
  | 't' => some '\t'
  | 'n' => some '\n'
  | 'v' => some '\x0b'
  | 'f' => some '\x0c'
  | 'r' => some '\r'
  | _ => none

/-- A text after its opening quote. It has to be closed on the same line. -/
def readQuoted : List Char → Option (Reading (List Char))
  | [] => none
  | '\'' :: rest => some ⟨[], rest⟩
  | '\\' :: c :: cs => do
    let d ← unescape? c
    let text ← readQuoted cs
    return ⟨d :: text.value, text.rest⟩
  | c :: cs =>
    if c == '\\' || isLineBreak c then none
    else do
      let text ← readQuoted cs
      return ⟨c :: text.value, text.rest⟩

end Text

namespace Literal

open Text

/-- A number in base ten without superfluous zeros. -/
def readNumber (cs : List Char) : Option (Reading Nat) :=
  let ds := cs.takeWhile Char.isDigit
  if ds.isEmpty || (1 < ds.length && ds.head? == some '0') || Number.maxDigits < ds.length then none
  else some ⟨Nat.ofDigitChars 10 ds 0, cs.drop ds.length⟩

def readScalar : List Char → Option (Reading Value)
  | 'N' :: 'o' :: 'n' :: 'e' :: rest => some ⟨.null, rest⟩
  | 'T' :: 'r' :: 'u' :: 'e' :: rest => some ⟨.bool true, rest⟩
  | 'F' :: 'a' :: 'l' :: 's' :: 'e' :: rest => some ⟨.bool false, rest⟩
  | '\'' :: cs => (readQuoted cs).map fun text => ⟨.text (String.ofList text.value), text.rest⟩
  | '-' :: cs => (readNumber cs).map fun number => ⟨.int (-(number.value : Int)), number.rest⟩
  | cs => (readNumber cs).map fun number => ⟨.int number.value, number.rest⟩

def skipBlanks (cs : List Char) : List Char := cs.dropWhile (· == ' ')

/-- Elements up to the closing character, with commas between them. -/
def readElements {α : Type} (close : Char) (element : List Char → Option (Reading α)) :
    Nat → List Char → Option (Reading (List α))
  | 0, _ => none
  | fuel + 1, cs =>
    match skipBlanks cs with
    | [] => none
    | c :: rest =>
      if c == close then some ⟨[], rest⟩
      else do
        let first ← element (c :: rest)
        match skipBlanks first.rest with
        | [] => none
        | d :: more =>
          if d == close then return ⟨[first.value], more⟩
          else if d == ',' then do
            let others ← readElements close element fuel more
            return ⟨first.value :: others.value, others.rest⟩
          else none

/-- A key that can be looked up, a colon and a value. -/
def readEntry (value : List Char → Option (Reading Value)) (cs : List Char) :
    Option (Reading (Value × Value)) := do
  let key ← value cs
  match skipBlanks key.rest with
  | ':' :: more => do
    let found ← value (skipBlanks more)
    if key.value.isHashable then return ⟨(key.value, found.value), found.rest⟩ else none
  | _ => none

/-- A literal at the start of a text. Entries of a mapping are written one after the other, so that of
two with the same key the later one counts. -/
def readValue : Nat → List Char → Option (Reading Value)
  | 0, _ => none
  | fuel + 1, '[' :: cs =>
    (readElements ']' (readValue fuel) (fuel + 1) cs).map fun items => ⟨.list items.value, items.rest⟩
  | fuel + 1, '{' :: cs =>
    (readElements '}' (readEntry (readValue fuel)) (fuel + 1) cs).map fun entries =>
      ⟨.map (Fields.ofEntries entries.value), entries.rest⟩
  | _ + 1, cs => readScalar cs

/-- The value of a text that is one literal from its first to its last character. -/
def read? (s : String) : Option Value := do
  let found ← readValue s.toList.length s.toList
  if found.rest.isEmpty then return found.value else none

/-- A value of nulls, truth values, integers, texts without markers, lists, and mappings from texts. -/
inductive IsData : Value → Prop where
  | null : IsData .null
  | bool (b : Bool) : IsData (.bool b)
  | int (n : Int) : IsData (.int n)
  | text {s : String} (h : Marker.hasMarker s = false) : IsData (.text s)
  | list {items : List Value} (h : ∀ item ∈ items, IsData item) : IsData (.list items)
  | map {entries : List (String × Value)} (hkeys : (entries.map (·.1)).Nodup)
      (h : ∀ entry ∈ entries, IsData entry.2) :
      IsData (.map (entries.map fun entry => (.text entry.1, entry.2)))

end Literal

/-! ## Scalars -/

namespace Text

theorem readQuoted_escapeChar (c : Char) (cs : List Char) : readQuoted (escapeChar c ++ cs) = do
    let text ← readQuoted cs
    return ⟨c :: text.value, text.rest⟩ := by
  unfold escapeChar
  split_ifs with hslash hquote hfeed hreturn htab
  · obtain rfl : c = '\\' := by simpa using hslash
    rfl
  · obtain rfl : c = '\'' := by simpa using hquote
    rfl
  · obtain rfl : c = '\n' := by simpa using hfeed
    rfl
  · obtain rfl : c = '\r' := by simpa using hreturn
    rfl
  · obtain rfl : c = '\t' := by simpa using htab
    rfl
  · have hplain : (c == '\\' || isLineBreak c) = false := by simp_all [isLineBreak]
    rw [List.singleton_append, readQuoted, if_neg (by simp [hplain])]
    · simpa using hquote
    · rintro d ds rfl
      simp at hslash

/-- What is escaped is read back, up to the quote that closes it. -/
theorem readQuoted_escape (cs rest : List Char) :
    readQuoted (cs.flatMap escapeChar ++ '\'' :: rest) = some ⟨cs, rest⟩ := by
  induction cs with
  | nil => rfl
  | cons c cs ih =>
    rw [List.flatMap_cons, List.append_assoc, readQuoted_escapeChar, ih]
    rfl

theorem quote_toList (s : String) : (quote s).toList = '\'' :: (s.toList.flatMap escapeChar ++ ['\'']) := by
  simp [quote, escape]

end Text

namespace Number

theorem head_digits_ne_zero {n : Nat} (h : 0 < n) : (digits n).head? ≠ some '0' := by
  induction n using Nat.strong_induction_on with
  | _ n ih =>
    unfold digits
    by_cases hn : n < 10
    · have hdigit : ∀ m < 10, 0 < m → [Nat.digitChar m].head? ≠ some '0' := by decide
      rw [Nat.toDigits_of_lt_base hn]
      exact hdigit n hn h
    · have hbase : 10 ≤ n := Nat.le_of_not_lt hn
      rw [Nat.toDigits_of_base_le (by decide) hbase, List.head?_append_of_ne_nil _ Nat.toDigits_ne_nil]
      exact ih (n / 10) (Nat.div_lt_self h (by decide)) (Nat.div_pos hbase (by decide))

theorem digits_eq_cons (n : Nat) : ∃ c cs, digits n = c :: cs ∧ c.isDigit = true := by
  obtain ⟨c, cs, hcs⟩ := List.exists_cons_of_ne_nil (Nat.toDigits_ne_nil (n := n) (b := 10))
  exact ⟨c, cs, hcs, Nat.isDigit_of_mem_toDigits (by decide) (by decide) (hcs ▸ List.mem_cons_self)⟩

theorem digits_length_le {n count : Nat} (hcount : 0 < count) (h : n < Nat.pow 10 count) :
    (digits n).length ≤ count :=
  Nat.toDigits_length 10 n count hcount h

end Number

namespace Literal

open Text

/-- A text that does not go on with a digit. -/
def Delimited (rest : List Char) : Prop := ∀ c ∈ rest.head?, c.isDigit = false

theorem readNumber_digits {n : Nat} (hn : n < Nat.pow 10 Number.maxDigits) {rest : List Char}
    (hrest : Delimited rest) : readNumber (Number.digits n ++ rest) = some ⟨n, rest⟩ := by
  have hdigit : ∀ c ∈ Number.digits n, c.isDigit = true := fun c hc =>
    Nat.isDigit_of_mem_toDigits (by decide) (by decide) hc
  have hstop : rest.takeWhile Char.isDigit = [] := by
    cases rest with
    | nil => rfl
    | cons c cs => rw [List.takeWhile_cons_of_neg (by simp [hrest c rfl])]
  have htake : (Number.digits n ++ rest).takeWhile Char.isDigit = Number.digits n := by
    rw [List.takeWhile_append_of_pos hdigit, hstop, List.append_nil]
  have hzero : ¬ (1 < (Number.digits n).length ∧ (Number.digits n).head? = some '0') := by
    rintro ⟨hlong, hhead⟩
    rcases Nat.eq_zero_or_pos n with rfl | hpos
    · exact absurd hlong (by decide)
    · exact Number.head_digits_ne_zero hpos hhead
  have hne : Number.digits n ≠ [] := Nat.toDigits_ne_nil
  have hlength := Number.digits_length_le (by decide) hn
  simp only [readNumber, htake]
  rw [if_neg, List.drop_left, Number.digits, Nat.ofDigitChars_ten_toDigits]
  simp only [Bool.or_eq_true, Bool.and_eq_true, decide_eq_true_eq, beq_iff_eq, List.isEmpty_iff]
  rintro ((hempty | hlong) | hlong)
  · exact hne hempty
  · exact hzero hlong
  · omega

theorem readScalar_number {c : Char} (hc : c.isDigit = true) (cs : List Char) :
    readScalar (c :: cs) = (readNumber (c :: cs)).map fun number => ⟨.int number.value, number.rest⟩ := by
  unfold readScalar
  split <;> first | rfl | (rename_i heq; cases heq; exact absurd hc (by decide))

theorem readScalar_intText {n : Int} (hn : Number.isWritable n = true) {rest : List Char}
    (hrest : Delimited rest) :
    readScalar ((Number.intText n).toList ++ rest) = some ⟨.int n, rest⟩ := by
  have hsize : n.natAbs < Nat.pow 10 Number.maxDigits := of_decide_eq_true hn
  have hread := readNumber_digits hsize hrest
  rw [Number.intText, String.toList_append, Number.natText, String.toList_ofList, List.append_assoc]
  by_cases hneg : n < 0
  · have hvalue : -(n.natAbs : Int) = n := by omega
    rw [if_pos hneg]
    change (readNumber (Number.digits n.natAbs ++ rest)).map _ = _
    rw [hread, Option.map_some, hvalue]
  · have hvalue : (n.natAbs : Int) = n := by omega
    obtain ⟨c, cs, hcs, hc⟩ := Number.digits_eq_cons n.natAbs
    rw [if_neg hneg, String.toList_empty, List.nil_append]
    rw [hcs, List.cons_append] at hread ⊢
    rw [readScalar_number hc, hread, Option.map_some, hvalue]

theorem readScalar_quote (s : String) (rest : List Char) :
    readScalar ((quote s).toList ++ rest) = some ⟨.text s, rest⟩ := by
  have hread := readQuoted_escape s.toList rest
  rw [quote_toList, List.cons_append, List.append_assoc, List.singleton_append, readScalar, hread,
    Option.map_some, String.ofList_toList]

/-! ## Lists and mappings -/

/-- A text from which the reader takes the given value, whatever follows that is no digit, and which
starts like an element of a list or a mapping. -/
structure Reads {α : Type} (reader : List Char → Option (Reading α)) (text : List Char) (value : α) : Prop where
  read : ∀ {rest : List Char}, Delimited rest → reader (text ++ rest) = some ⟨value, rest⟩
  head : ∃ c cs, text = c :: cs ∧ c ≠ ' ' ∧ c ≠ ']' ∧ c ≠ '}'

theorem skipBlanks_of_ne {c : Char} (hc : c ≠ ' ') (cs : List Char) : skipBlanks (c :: cs) = c :: cs :=
  List.dropWhile_cons_of_neg (by simpa using hc)

section Elements

variable {α : Type} {reader : List Char → Option (Reading α)}

theorem readElements_blank (close : Char) (fuel : Nat) (cs : List Char) :
    readElements close reader fuel (' ' :: cs) = readElements close reader fuel cs := by
  cases fuel <;> rfl

theorem readElements_close {close : Char} (hblank : close ≠ ' ') (fuel : Nat) (rest : List Char) :
    readElements close reader (fuel + 1) (close :: rest) = some ⟨[], rest⟩ := by
  rw [readElements, skipBlanks_of_ne hblank]
  simp

/-- After an element the reader looks at the next character: it ends there or, after a comma, goes on. -/
theorem readElements_step {close : Char} (hclose : close = ']' ∨ close = '}') {text : List Char} {value : α}
    (h : Reads reader text value) {d : Char} (hd : d = close ∨ d = ',') (fuel : Nat) (more : List Char) :
    readElements close reader (fuel + 1) (text ++ d :: more) =
      if d == close then some ⟨[value], more⟩
      else (readElements close reader fuel more).map fun others => ⟨value :: others.value, others.rest⟩ := by
  obtain ⟨c, cs, rfl, hc, hsquare, hcurly⟩ := h.head
  have hne : (c == close) = false := by rcases hclose with rfl | rfl <;> simpa
  have hdigit : Delimited (d :: more) := by
    rcases hd with rfl | rfl
    · rcases hclose with rfl | rfl <;> simp [Delimited]
    · simp [Delimited]
  have hblank : d ≠ ' ' := by
    rcases hd with rfl | rfl
    · rcases hclose with rfl | rfl <;> decide
    · decide
  rw [readElements, List.cons_append, skipBlanks_of_ne hc]
  simp only [hne, Bool.false_eq_true, if_false]
  rw [← List.cons_append, h.read hdigit]
  simp only [Option.bind_eq_bind, Option.bind_some, skipBlanks_of_ne hblank]
  rcases hd with rfl | rfl
  · simp
  · simp only [beq_self_eq_true, if_true]
    split_ifs
    · rfl
    · cases readElements close reader fuel more <;> rfl

/-- A reader of elements starts again after each comma. -/
theorem readElements_intercalate {close : Char} (hclose : close = ']' ∨ close = '}') {β : Type}
    (text : β → List Char) (value : β → α) {items : List β}
    (h : ∀ item ∈ items, Reads reader (text item) (value item)) {fuel : Nat} (hfuel : items.length ≤ fuel)
    (rest : List Char) :
    readElements close reader (fuel + 1) (List.intercalate [',', ' '] (items.map text) ++ close :: rest) =
      some ⟨items.map value, rest⟩ := by
  have hblank : close ≠ ' ' := by rcases hclose with rfl | rfl <;> decide
  have hcomma : (',' == close) = false := by rcases hclose with rfl | rfl <;> decide
  induction items generalizing fuel with
  | nil => exact readElements_close hblank fuel rest
  | cons item items ih =>
    have hfirst := h item List.mem_cons_self
    cases items with
    | nil =>
      have hstep := readElements_step hclose hfirst (.inl rfl) fuel rest
      rw [beq_self_eq_true, if_pos rfl] at hstep
      rw [List.map_singleton, List.map_singleton, List.intercalate_singleton, hstep]
    | cons next items =>
      obtain ⟨fuel, rfl⟩ : ∃ n, fuel = n + 1 := ⟨fuel - 1, by simp only [List.length_cons] at hfuel; omega⟩
      have hothers := ih (fun other hother => h other (List.mem_cons_of_mem _ hother)) (Nat.le_of_succ_le_succ hfuel)
      have hstep := readElements_step hclose hfirst (.inr rfl) (fuel + 1)
        (' ' :: (List.intercalate [',', ' '] ((next :: items).map text) ++ close :: rest))
      rw [hcomma, if_neg Bool.false_ne_true, readElements_blank, hothers] at hstep
      simpa [List.intercalate_cons_cons] using hstep

end Elements

theorem readEntry_quote {reader : List Char → Option (Reading Value)} {key : String} {text : List Char} {v : Value}
    (hkey : Reads reader (quote key).toList (.text key)) (h : Reads reader text v) :
    Reads (readEntry reader) ((quote key).toList ++ ':' :: ' ' :: text) (.text key, v) where
  read {rest} hrest := by
    obtain ⟨c, cs, rfl, hc, -, -⟩ := h.head
    have hcolon : Delimited (':' :: ' ' :: (c :: cs ++ rest)) := by simp [Delimited]
    have hblank : skipBlanks (' ' :: (c :: cs ++ rest)) = c :: cs ++ rest := skipBlanks_of_ne hc (cs ++ rest)
    rw [List.append_assoc, List.cons_append, List.cons_append, readEntry, hkey.read hcolon]
    simp only [Option.bind_eq_bind, Option.bind_some, skipBlanks_of_ne (show ':' ≠ ' ' by decide), hblank,
      h.read hrest, Value.isHashable, if_true]
    rfl
  head := by
    obtain ⟨c, cs, hcs, hc⟩ := hkey.head
    exact ⟨c, cs ++ ':' :: ' ' :: text, by rw [hcs, List.cons_append], hc⟩

end Literal

namespace Fields

theorem insert_text {es : Fields} {key : String} (h : ∀ e ∈ es, e.1.sameKey (.text key) = false) (v : Value) :
    es.insert (.text key) v = es ++ [(.text key, v)] := by
  induction es with
  | nil => rfl
  | cons e es ih =>
    have hfirst := h e List.mem_cons_self
    rw [insert, if_neg (by simp [hfirst]), ih fun other hother => h other (List.mem_cons_of_mem _ hother)]
    rfl

/-- Entries under different texts stay as they are when they are written one after the other. -/
theorem ofEntries_text {entries : List (String × Value)} (hkeys : (entries.map (·.1)).Nodup) :
    ofEntries (entries.map fun entry => (.text entry.1, entry.2)) =
      entries.map fun entry => (.text entry.1, entry.2) := by
  -- The entries written so far are a front of the list, and the next key is none of theirs.
  have hgrow : ∀ front rest : List (String × Value), ((front ++ rest).map (·.1)).Nodup →
      insertAll (front.map fun entry => (.text entry.1, entry.2)) (rest.map fun entry => (.text entry.1, entry.2)) =
        (front ++ rest).map fun entry => (.text entry.1, entry.2) := by
    intro front rest hnodup
    induction rest generalizing front with
    | nil => rw [List.append_nil]; rfl
    | cons entry rest ih =>
      have hnext := ih (front ++ [entry]) (by simpa using hnodup)
      have hfresh : ∀ e ∈ front.map fun entry => (Value.text entry.1, entry.2),
          e.1.sameKey (.text entry.1) = false := by
        intro e he
        obtain ⟨other, hother, rfl⟩ := List.mem_map.mp he
        rw [List.map_append, List.nodup_append] at hnodup
        have hne := hnodup.2.2 other.1 (List.mem_map_of_mem hother) entry.1 (by simp)
        simpa [Value.sameKey] using hne
      rw [List.map_cons, insertAll, List.foldl_cons, insert_text hfresh]
      simpa [insertAll] using hnext
  exact hgrow [] entries hkeys

end Fields

namespace Literal

open Text

theorem codeItems_eq_map (levels : Int) (items : List Value) (lookup : List Char → List Char) :
    codeItems levels items lookup = items.map fun item => code levels item lookup := by
  induction items with
  | nil => rw [codeItems, List.map_nil]
  | cons item items ih => rw [codeItems, ih, List.map_cons]

theorem codeEntries_eq_map (levels : Int) (es : Fields) (lookup : List Char → List Char) :
    codeEntries levels es lookup = es.map fun e => quote e.1.display ++ ": " ++ code levels e.2 lookup := by
  induction es with
  | nil => rw [codeEntries, List.map_nil]
  | cons e es ih => rw [codeEntries, ih, List.map_cons]

theorem codeEntries_of_texts (levels : Int) (entries : List (String × Value)) (lookup : List Char → List Char) :
    codeEntries levels (entries.map fun entry => (.text entry.1, entry.2)) lookup =
      entries.map fun entry => quote entry.1 ++ ": " ++ code levels entry.2 lookup := by
  rw [codeEntries_eq_map, List.map_map]
  rfl

theorem code_text {levels : Int} (hlevels : 0 ≤ levels) {s : String} (h : Marker.hasMarker s = false)
    (lookup : List Char → List Char) : code levels (.text s) lookup = quote s := by
  have hinners : (Marker.split s.toList).inners = [] := by simpa [Marker.hasMarker, Marker.inners] using h
  have hsingle : Marker.single? s.toList = none := by
    cases hsingle : Marker.single? s.toList with
    | none => rfl
    | some inner => exact absurd (Marker.mem_inners_of_single? hsingle) (by rw [hinners]; exact List.not_mem_nil)
  have hparts : (Marker.split s.toList).parts = [] := List.map_eq_nil_iff.mp hinners
  simp only [code, if_neg (Int.not_lt.mpr hlevels), resolve, hsingle, hparts, List.isEmpty_nil, if_true]

/-! ## Values -/

theorem commaSeparated_toList (parts : List String) :
    (Value.commaSeparated parts).toList = List.intercalate [',', ' '] (parts.map String.toList) :=
  String.toList_intercalate

theorem length_le_of_mem_intercalate (sep : List Char) {part : List Char} {parts : List (List Char)}
    (h : part ∈ parts) : part.length ≤ (List.intercalate sep parts).length := by
  induction parts with
  | nil => cases h
  | cons first parts ih =>
    cases parts with
    | nil =>
      obtain rfl := List.mem_singleton.mp h
      rw [List.intercalate_singleton]
    | cons next parts =>
      rw [List.intercalate_cons_cons, List.length_append, List.length_append]
      rcases List.mem_cons.mp h with rfl | h
      · omega
      · have := ih h
        omega

theorem length_le_intercalate (parts : List (List Char)) :
    parts.length ≤ (List.intercalate [',', ' '] parts).length + 1 := by
  induction parts with
  | nil => exact Nat.zero_le _
  | cons first parts ih =>
    cases parts with
    | nil => exact Nat.le_add_left ..
    | cons next parts =>
      rw [List.intercalate_cons_cons, List.length_append, List.length_append]
      simp only [List.length_cons, List.length_nil] at ih ⊢
      omega

theorem readValue_scalar {c : Char} (hsquare : c ≠ '[') (hcurly : c ≠ '{') (fuel : Nat) (cs : List Char) :
    readValue (fuel + 1) (c :: cs) = readScalar (c :: cs) := by
  rw [readValue]
  · rintro ds heq
    exact hsquare (List.cons.inj heq).1
  · rintro ds heq
    exact hcurly (List.cons.inj heq).1

/-- A scalar is read by its first character. -/
theorem reads_scalar {text : List Char} {v : Value}
    (hread : ∀ {rest : List Char}, Delimited rest → readScalar (text ++ rest) = some ⟨v, rest⟩)
    {c : Char} (hc : text.head? = some c) (hplain : c ∉ [' ', '[', ']', '{', '}']) {fuel : Nat}
    (hfuel : text.length ≤ fuel) : Reads (readValue fuel) text v := by
  obtain ⟨cs, rfl⟩ := List.head?_eq_some_iff.mp hc
  obtain ⟨fuel, rfl⟩ : ∃ n, fuel = n + 1 := ⟨fuel - 1, by simp only [List.length_cons] at hfuel; omega⟩
  simp only [List.mem_cons, not_or] at hplain
  obtain ⟨hblank, hopen, hclose, hcurly, hend, -⟩ := hplain
  refine ⟨fun hrest => ?_, c, cs, rfl, hblank, hclose, hend⟩
  rw [List.cons_append, readValue_scalar hopen hcurly, ← List.cons_append, hread hrest]

theorem reads_quote (s : String) {fuel : Nat} (hfuel : (quote s).toList.length ≤ fuel) :
    Reads (readValue fuel) (quote s).toList (.text s) :=
  reads_scalar (fun _ => readScalar_quote s _) (by rw [quote_toList]; rfl) (by decide) hfuel

theorem reads_int {n : Int} (hn : Number.isWritable n = true) {fuel : Nat}
    (hfuel : (Number.intText n).toList.length ≤ fuel) :
    Reads (readValue fuel) (Number.intText n).toList (.int n) := by
  obtain ⟨c, hc, hsign⟩ : ∃ c, (Number.intText n).toList.head? = some c ∧ (c = '-' ∨ c.isDigit = true) := by
    rw [Number.intText, String.toList_append, Number.natText, String.toList_ofList]
    split_ifs
    · exact ⟨'-', rfl, .inl rfl⟩
    · obtain ⟨c, cs, hcs, hdigit⟩ := Number.digits_eq_cons n.natAbs
      exact ⟨c, by rw [hcs]; rfl, .inr hdigit⟩
  have hother : ∀ d ∈ [' ', '[', ']', '{', '}'], d ≠ '-' ∧ d.isDigit = false :=
    List.all_iff_forall_prop.mp (by decide)
  refine reads_scalar (fun hrest => readScalar_intText hn hrest) hc (fun hmem => ?_) hfuel
  rcases hsign with rfl | hdigit
  · exact (hother _ hmem).1 rfl
  · simp [(hother c hmem).2] at hdigit

section Collections

variable {α : Type} {fuel : Nat} {text : α → List Char} {items : List α}

/-- The reader of a collection has steps enough for its elements. -/
theorem length_le_of_intercalate (hfuel : (List.intercalate [',', ' '] (items.map text)).length < fuel) :
    items.length ≤ fuel ∧ ∀ item ∈ items, (text item).length ≤ fuel := by
  have hcount := length_le_intercalate (items.map text)
  rw [List.length_map] at hcount
  refine ⟨by omega, fun item hitem => ?_⟩
  have hlength := length_le_of_mem_intercalate [',', ' '] (List.mem_map_of_mem (f := text) hitem)
  omega

theorem reads_list {text : Value → List Char} {items : List Value}
    (hfuel : (List.intercalate [',', ' '] (items.map text)).length < fuel)
    (h : ∀ item ∈ items, (text item).length ≤ fuel → Reads (readValue fuel) (text item) item) :
    Reads (readValue (fuel + 1)) ('[' :: (List.intercalate [',', ' '] (items.map text) ++ [']'])) (.list items) where
  read {rest} _ := by
    obtain ⟨hcount, hlength⟩ := length_le_of_intercalate hfuel
    have hread := readElements_intercalate (.inl rfl) text id
      (fun item hitem => h item hitem (hlength item hitem)) hcount rest
    rw [List.cons_append, List.append_assoc, List.singleton_append, readValue, hread, Option.map_some, List.map_id]
  head := ⟨'[', _, rfl, by decide, by decide, by decide⟩

theorem reads_map {value : α → Value × Value}
    (hfuel : (List.intercalate [',', ' '] (items.map text)).length < fuel)
    (h : ∀ item ∈ items, (text item).length ≤ fuel →
      Reads (readEntry (readValue fuel)) (text item) (value item)) :
    Reads (readValue (fuel + 1)) ('{' :: (List.intercalate [',', ' '] (items.map text) ++ ['}']))
      (.map (Fields.ofEntries (items.map value))) where
  read {rest} _ := by
    obtain ⟨hcount, hlength⟩ := length_le_of_intercalate hfuel
    have hread := readElements_intercalate (.inr rfl) text value
      (fun item hitem => h item hitem (hlength item hitem)) hcount rest
    rw [List.cons_append, List.append_assoc, List.singleton_append, readValue, hread, Option.map_some]
  head := ⟨'{', _, rfl, by decide, by decide, by decide⟩

end Collections

theorem areWritable_iff {items : List Value} :
    Value.areWritable items = true ↔ ∀ item ∈ items, item.isWritable = true := by
  induction items with
  | nil => simp [Value.areWritable]
  | cons item items ih => simp [Value.areWritable, ih]

theorem entriesWritable_iff {entries : Fields} :
    Value.entriesWritable entries = true ↔
      ∀ entry ∈ entries, entry.1.isWritable = true ∧ entry.2.isWritable = true := by
  induction entries with
  | nil => simp [Value.entriesWritable]
  | cons entry entries ih => simp [Value.entriesWritable, ih]

section Data

variable {v : Value} {levels : Int} (lookup : List Char → List Char)

theorem code_list_toList {items : List Value} (hlevels : 0 ≤ levels) :
    (code levels (.list items) lookup).toList = '[' :: (List.intercalate [',', ' ']
      (items.map fun item => (code (levels - 1) item lookup).toList) ++ [']']) := by
  rw [code, if_neg (Int.not_lt.mpr hlevels), codeItems_eq_map, String.toList_append, String.toList_append,
    commaSeparated_toList, List.map_map]
  rfl

theorem code_map_toList {entries : List (String × Value)} (hlevels : 0 ≤ levels) :
    (code levels (.map (entries.map fun entry => (.text entry.1, entry.2))) lookup).toList =
      '{' :: (List.intercalate [',', ' '] (entries.map fun entry =>
        (quote entry.1).toList ++ ':' :: ' ' :: (code (levels - 1) entry.2 lookup).toList) ++ ['}']) := by
  rw [code, if_neg (Int.not_lt.mpr hlevels), codeEntries_of_texts, String.toList_append, String.toList_append,
    commaSeparated_toList, List.map_map]
  simp [Function.comp_def]

/-- The text of a value is read as the value, whatever follows it. -/
theorem IsData.reads_code (hdata : IsData v) (hwritable : v.isWritable = true) (hdepth : v.nestingDepth ≤ levels)
    {fuel : Nat} (hfuel : (code levels v lookup).toList.length ≤ fuel) :
    Reads (readValue fuel) (code levels v lookup).toList v := by
  have hlevels : 0 ≤ levels := Int.le_trans (Int.natCast_nonneg _) hdepth
  induction hdata generalizing levels fuel with
  | null =>
    have hcode : code levels .null lookup = "None" := by simp [code, Value.literal]
    rw [hcode] at hfuel ⊢
    exact reads_scalar (fun _ => rfl) rfl (by decide) hfuel
  | bool b =>
    have hcode : code levels (.bool b) lookup = Value.boolText b := by simp [code, Value.literal]
    rw [hcode] at hfuel ⊢
    cases b
    · exact reads_scalar (fun _ => rfl) rfl (by decide) hfuel
    · exact reads_scalar (fun _ => rfl) rfl (by decide) hfuel
  | int n =>
    have hcode : code levels (.int n) lookup = Number.intText n := by simp [code, Value.literal]
    rw [hcode] at hfuel ⊢
    exact reads_int (by simpa [Value.isWritable] using hwritable) hfuel
  | @text s h =>
    rw [code_text hlevels h] at hfuel ⊢
    exact reads_quote s hfuel
  | @list items h ih =>
    rw [Value.nestingDepth] at hdepth
    rw [Value.isWritable, areWritable_iff] at hwritable
    rw [code_list_toList lookup hlevels] at hfuel ⊢
    simp only [List.length_cons, List.length_append, List.length_nil] at hfuel
    obtain ⟨fuel, rfl⟩ : ∃ n, fuel = n + 1 := ⟨fuel - 1, by omega⟩
    refine reads_list (by omega) fun item hitem hlength => ?_
    have hle := Value.nestingDepthItems_le hitem
    exact ih item hitem (hwritable item hitem) (by omega) hlength (by omega)
  | @map entries hkeys h ih =>
    rw [Value.nestingDepth] at hdepth
    rw [Value.isWritable, entriesWritable_iff] at hwritable
    rw [code_map_toList lookup hlevels] at hfuel ⊢
    simp only [List.length_cons, List.length_append, List.length_nil] at hfuel
    obtain ⟨fuel, rfl⟩ : ∃ n, fuel = n + 1 := ⟨fuel - 1, by omega⟩
    rw [← Fields.ofEntries_text hkeys]
    refine reads_map (by omega) fun entry hentry hlength => ?_
    have hmem := List.mem_map_of_mem (f := fun entry : String × Value => (Value.text entry.1, entry.2)) hentry
    have hle : entry.2.nestingDepth ≤ _ := Value.nestingDepthEntries_le hmem
    simp only [List.length_append, List.length_cons] at hlength
    exact readEntry_quote (reads_quote _ (by omega))
      (ih entry hentry (hwritable _ hmem).2 (by omega) (by omega) (by omega))

theorem IsData.oneLine_code (hdata : IsData v) (hdepth : v.nestingDepth ≤ levels) :
    OneLine (code levels v lookup) := by
  have hlevels : 0 ≤ levels := Int.le_trans (Int.natCast_nonneg _) hdepth
  induction hdata generalizing levels with
  | null => simpa [code] using Value.literal_oneLine .null
  | bool b => simpa [code] using Value.literal_oneLine (.bool b)
  | int n => simpa [code] using Value.literal_oneLine (.int n)
  | @text s h =>
    rw [code_text hlevels h]
    exact quote_oneLine s
  | @list items h ih =>
    rw [Value.nestingDepth] at hdepth
    rw [code, if_neg (Int.not_lt.mpr hlevels), codeItems_eq_map, oneLine_append, oneLine_append]
    refine ⟨⟨oneLine_literal rfl, Value.commaSeparated_oneLine fun part hpart => ?_⟩, oneLine_literal rfl⟩
    obtain ⟨item, hitem, rfl⟩ := List.mem_map.mp hpart
    have hle := Value.nestingDepthItems_le hitem
    exact ih item hitem (by omega) (by omega)
  | @map entries hkeys h ih =>
    rw [Value.nestingDepth] at hdepth
    rw [code, if_neg (Int.not_lt.mpr hlevels), codeEntries_of_texts, oneLine_append, oneLine_append]
    refine ⟨⟨oneLine_literal rfl, Value.commaSeparated_oneLine fun part hpart => ?_⟩, oneLine_literal rfl⟩
    obtain ⟨entry, hentry, rfl⟩ := List.mem_map.mp hpart
    have hmem := List.mem_map_of_mem (f := fun entry : String × Value => (Value.text entry.1, entry.2)) hentry
    have hle : entry.2.nestingDepth ≤ _ := Value.nestingDepthEntries_le hmem
    rw [oneLine_append, oneLine_append]
    exact ⟨⟨quote_oneLine _, oneLine_literal rfl⟩, ih entry hentry (by omega) (by omega)⟩

theorem IsData.read?_code (hdata : IsData v) (hwritable : v.isWritable = true) (hdepth : v.nestingDepth ≤ levels) :
    read? (code levels v lookup) = some v := by
  have hreads := hdata.reads_code lookup hwritable hdepth (Nat.le_refl _)
  have hread : readValue _ ((code levels v lookup).toList ++ []) = _ := hreads.read (by simp [Delimited])
  rw [List.append_nil] at hread
  simp [read?, hread]

end Data

end Literal

namespace Program.Pass

open Literal Text

theorem valueCode_runs {ctx : Context} {v : Value} {levels : Int} (hwritable : v.isWritable = true)
    (hlevels : ctx.settings.maxResolveDepth.most = .ok levels) (s : State) :
    ∃ s', (valueCode ctx v).Runs s (code levels v ctx.agent.lookup) s' := by
  have hcheck : v.checkWritable = .ok () := by rw [Value.checkWritable, if_pos hwritable]
  simp only [valueCode, runs_bind, runs_lift]
  split_ifs
  · simp only [requireImport, runs_bind, runs_modify, runs_lift, runs_pure]
    exact ⟨_, (), s, ⟨hcheck, rfl⟩, (), _, rfl, levels, _, ⟨hlevels, rfl⟩, rfl, rfl⟩
  · simp only [runs_bind, runs_lift, runs_pure]
    exact ⟨s, (), s, ⟨hcheck, rfl⟩, levels, s, ⟨hlevels, rfl⟩, rfl, rfl⟩

theorem valueCode_long {n : Int} (h : Number.isWritable n = false) (ctx : Context) (s : State) :
    (valueCode ctx (.int n)).run s = .error .integerTooLong := by
  have hcheck : (Value.int n).checkWritable = .error .integerTooLong := by
    rw [Value.checkWritable, Value.isWritable, h]
    rfl
  rw [valueCode, hcheck]
  rfl

/-- The text of a value without markers is on one line and reads as this value, if all its integers can be
written. -/
theorem value_read_back {v : Value} (hdata : IsData v) (hwritable : v.isWritable = true) {levels : Int}
    (hdepth : v.nestingDepth ≤ levels) :
    (∀ (ctx : Context) (s : State), ctx.settings.maxResolveDepth.most = .ok levels →
      ∃ s', (valueCode ctx v).Runs s (code levels v ctx.agent.lookup) s') ∧
    ∀ lookup : List Char → List Char,
      OneLine (code levels v lookup) ∧ read? (code levels v lookup) = some v :=
  ⟨fun _ s hlevels => valueCode_runs hwritable hlevels s,
    fun lookup => ⟨hdata.oneLine_code lookup hdepth, hdata.read?_code lookup hwritable hdepth⟩⟩

/-- Texts that look like the notation around them, and a marker in a key. -/
def awkwardEntries : List (String × Value) :=
  [("$\x7bkey\x7d", .list [.int (-12), .text "', '", .list []]),
    ("\\'\n", .list [.null, .text "\\\\]\x7d\r\t: None", .bool false]),
    ("", .map [(.text "]", .text "")])]

def awkwardValue : Value := .map (awkwardEntries.map fun entry => (.text entry.1, entry.2))

theorem awkwardValue_isData : IsData awkwardValue := by
  have hempty : IsData (.map ([("]", .text "")].map fun entry : String × Value => (.text entry.1, entry.2))) := by
    refine .map (by decide) fun entry hentry => ?_
    obtain rfl := List.mem_singleton.mp hentry
    exact .text (by decide +kernel)
  have hfirst : IsData (.list [.int (-12), .text "', '", .list []]) := .list (by
    simp only [List.mem_cons, List.not_mem_nil, or_false, forall_eq_or_imp, forall_eq]
    exact ⟨.int _, .text (by decide +kernel), .list (by simp)⟩)
  have hsecond : IsData (.list [.null, .text "\\\\]\x7d\r\t: None", .bool false]) := .list (by
    simp only [List.mem_cons, List.not_mem_nil, or_false, forall_eq_or_imp, forall_eq]
    exact ⟨.null, .text (by decide +kernel), .bool _⟩)
  refine .map (by decide) ?_
  simp only [awkwardEntries, List.mem_cons, List.not_mem_nil, or_false, forall_eq_or_imp, forall_eq]
  exact ⟨hfirst, hsecond, hempty⟩

theorem awkwardValue_read_back :
    awkwardValue.isWritable = true ∧ awkwardValue.nestingDepth = 3 ∧
      read? (code 3 awkwardValue Marker.lookup) = some awkwardValue := by
  have hwritable : awkwardValue.isWritable = true := by decide +kernel
  exact ⟨hwritable, by decide, ((value_read_back awkwardValue_isData hwritable (by decide)).2 _).2⟩

/-- An integer of one digit too many is a value without markers, and it has no text. -/
theorem long_integer_unwritten :
    IsData (.int (10 ^ 4300)) ∧ (Value.int (10 ^ 4300)).nestingDepth = 0 ∧
      (valueCode {} (.int (10 ^ 4300))).run {} = .error .integerTooLong := by
  have hlong : Number.isWritable (10 ^ 4300) = false := by decide +kernel
  have hflat (n : Int) : (Value.int n).nestingDepth = 0 := by rw [Value.nestingDepth] <;> simp
  exact ⟨.int _, hflat _, valueCode_long hlong _ _⟩

end Program.Pass

end FlowScript
