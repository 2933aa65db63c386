import FlowScript.Value.Json
import FlowScript.Proofs.Pass

/-!
# Texts on one line

What a program quotes of a document is written so that it stays on one line: numbers and dates have no
line break in their spelling, and a text has its line breaks escaped. This holds of every value, so also
of collections that contain themselves.
-/
namespace FlowScript

namespace Text

/-- The characters that end a line of a program. -/
def isLineBreak (c : Char) : Bool := c == '\n' || c == '\r'

/-- A text without line breaks. -/
def OneLine (s : String) : Prop := ∀ c ∈ s.toList, isLineBreak c = false

instance (s : String) : Decidable (OneLine s) := List.decidableBAll _ s.toList

variable {a b : String} {cs : List Char}

@[simp] theorem oneLine_append : OneLine (a ++ b) ↔ OneLine a ∧ OneLine b := by
  simp only [OneLine, String.toList_append, List.forall_mem_append]

@[simp] theorem oneLine_ofList : OneLine (String.ofList cs) ↔ ∀ c ∈ cs, isLineBreak c = false := by
  rw [OneLine, String.toList_ofList]

/-- The characters of a literal tell that it is on one line. -/
theorem oneLine_literal (h : cs.all (fun c => !isLineBreak c) = true) : OneLine (String.ofList cs) := by
  rw [oneLine_ofList]
  intro c hc
  simpa using List.all_eq_true.mp h c hc

theorem oneLine_intercalate {sep : String} {parts : List String} (hsep : OneLine sep)
    (h : ∀ part ∈ parts, OneLine part) : OneLine (String.intercalate sep parts) := by
  induction parts with
  | nil => exact oneLine_literal rfl
  | cons part parts ih =>
    cases parts with
    | nil =>
      rw [String.intercalate_singleton]
      exact h part List.mem_cons_self
    | cons next rest =>
      rw [String.intercalate_cons_cons, oneLine_append, oneLine_append]
      exact ⟨⟨h part List.mem_cons_self, hsep⟩, ih fun p hp => h p (List.mem_cons_of_mem _ hp)⟩

theorem isLineBreak_of_isDigit {c : Char} (h : c.isDigit = true) : isLineBreak c = false := by
  rw [isLineBreak, Bool.or_eq_false_iff]
  constructor
  · rw [beq_eq_false_iff_ne]
    rintro rfl
    exact absurd h (by decide)
  · rw [beq_eq_false_iff_ne]
    rintro rfl
    exact absurd h (by decide)

end Text

open Text

/-! ## Numbers -/

namespace Number

variable {c : Char}

theorem isLineBreak_of_mem_digits {n : Nat} (h : c ∈ digits n) : isLineBreak c = false :=
  isLineBreak_of_isDigit (Nat.isDigit_of_mem_toDigits (by decide) (by decide) h)

theorem isLineBreak_of_mem_zeros {n : Nat} (h : c ∈ List.replicate n '0') : isLineBreak c = false := by
  rw [List.eq_of_mem_replicate h]
  rfl

theorem natText_oneLine (n : Nat) : OneLine (natText n) := by
  rw [natText, oneLine_ofList]
  exact fun c hc => isLineBreak_of_mem_digits hc

theorem intText_oneLine (n : Int) : OneLine (intText n) := by
  rw [intText, oneLine_append]
  refine ⟨?_, natText_oneLine _⟩
  split_ifs
  · exact oneLine_literal rfl
  · exact oneLine_literal rfl

theorem exponentText_oneLine (e : Int) : OneLine (exponentText e) := by
  unfold exponentText
  dsimp only
  rw [oneLine_append]
  constructor
  · split_ifs <;> exact oneLine_literal rfl
  · rw [oneLine_ofList]
    intro c hc
    split_ifs at hc
    · rcases List.mem_cons.mp hc with rfl | hc
      · rfl
      · exact isLineBreak_of_mem_digits hc
    · exact isLineBreak_of_mem_digits hc

theorem layout_oneLine (style : Style) {ds : List Char} (h : ∀ c ∈ ds, isLineBreak c = false) (lead : Int) :
    OneLine (layout style ds lead) := by
  have hpoint : OneLine "." := oneLine_literal rfl
  have htake (n : Nat) : OneLine (String.ofList (ds.take n)) :=
    oneLine_ofList.mpr fun c hc => h c (List.mem_of_mem_take hc)
  have hdrop (n : Nat) : OneLine (String.ofList (ds.drop n)) :=
    oneLine_ofList.mpr fun c hc => h c (List.mem_of_mem_drop hc)
  unfold layout
  dsimp only
  split
  · split
    · rw [oneLine_append]
      refine ⟨oneLine_literal rfl, oneLine_ofList.mpr fun c hc => ?_⟩
      rcases List.mem_append.mp hc with hc | hc
      · exact isLineBreak_of_mem_zeros hc
      · exact h c hc
    · rw [oneLine_append, oneLine_append]
      refine ⟨⟨oneLine_ofList.mpr fun c hc => ?_, hpoint⟩, ?_⟩
      · rcases List.mem_append.mp hc with hc | hc
        · exact h c (List.mem_of_mem_take hc)
        · exact isLineBreak_of_mem_zeros hc
      · split
        · exact oneLine_literal rfl
        · exact hdrop _
  · rw [oneLine_append, oneLine_append, oneLine_append]
    refine ⟨⟨⟨htake 1, ?_⟩, oneLine_literal rfl⟩, exponentText_oneLine lead⟩
    split
    · exact oneLine_literal rfl
    · exact oneLine_append.mpr ⟨hpoint, hdrop 1⟩

theorem floatText_oneLine (style : Style) (hnan : OneLine style.notANumber) (hinf : OneLine style.infinity)
    (x : Float) : OneLine (floatText style x) := by
  have hminus : OneLine "-" := oneLine_literal rfl
  unfold floatText
  split
  · exact hnan
  · split
    · exact oneLine_append.mpr ⟨hminus, hinf⟩
    · exact hinf
  · rename_i v _
    have hbody : OneLine (if v.mantissa == 0 then "0.0" else
        layout style (dropZeros (digits v.shortest.coefficient)).1
          (v.shortest.exponent + (digits v.shortest.coefficient).length - 1)) := by
      split
      · exact oneLine_literal rfl
      · refine layout_oneLine style (fun c hc => ?_) _
        have hmem := (List.dropWhile_sublist _).subset (List.mem_reverse.mp hc)
        exact isLineBreak_of_mem_digits (List.mem_reverse.mp hmem)
    unfold Exact.text
    dsimp only
    split
    · exact oneLine_append.mpr ⟨hminus, hbody⟩
    · exact hbody

theorem program_oneLine (x : Float) : OneLine (floatText .program x) := by
  have hnan : OneLine "nan" := oneLine_literal rfl
  have hinf : OneLine "inf" := oneLine_literal rfl
  exact floatText_oneLine _ hnan hinf x

theorem json_float_oneLine (x : Float) : OneLine (floatText .json x) := by
  have hnan : OneLine "NaN" := oneLine_literal rfl
  have hinf : OneLine "Infinity" := oneLine_literal rfl
  exact floatText_oneLine _ hnan hinf x

end Number

/-! ## Dates -/

namespace Calendar

open Number

theorem date_code_oneLine (d : Date) : OneLine d.code := by
  have hfront : OneLine "datetime.date(" := oneLine_literal rfl
  have hcomma : OneLine ", " := oneLine_literal rfl
  have hclose : OneLine ")" := oneLine_literal rfl
  unfold Date.code
  simp only [oneLine_append, hfront, hcomma, hclose, natText_oneLine, and_self]

theorem offsetCode_oneLine (o : Int) : OneLine (offsetCode o) := by
  unfold offsetCode
  dsimp only
  split
  · exact oneLine_literal rfl
  · have hfront : OneLine "datetime.timezone(datetime.timedelta(" := oneLine_literal rfl
    have hdays : OneLine (if o < 0 then "days=-1, " else "") := by
      split_ifs <;> exact oneLine_literal rfl
    have hseconds : OneLine "seconds=" := oneLine_literal rfl
    have hclose : OneLine "))" := oneLine_literal rfl
    simp only [oneLine_append, hfront, hdays, hseconds, hclose, intText_oneLine, and_self]

theorem timestamp_code_oneLine (t : Timestamp) : OneLine t.code := by
  have hoffset : OneLine (t.offset.elim "" fun o => ", tzinfo=" ++ offsetCode o) := by
    cases t.offset with
    | none => exact oneLine_literal rfl
    | some o => exact oneLine_append.mpr ⟨oneLine_literal rfl, offsetCode_oneLine o⟩
  unfold Timestamp.code
  dsimp only
  rw [oneLine_append, oneLine_append, oneLine_append]
  refine ⟨⟨⟨oneLine_literal rfl, oneLine_intercalate (oneLine_literal rfl) fun part hpart => ?_⟩, hoffset⟩,
    oneLine_literal rfl⟩
  obtain ⟨n, -, rfl⟩ := List.mem_map.mp hpart
  exact natText_oneLine n

end Calendar

/-! ## Quoted texts -/

namespace Text

theorem isLineBreak_hexDigit {n : Nat} (h : n < 16) : isLineBreak (hexDigit n) = false := by
  have hall : ∀ k : Fin 16, isLineBreak (hexDigit k) = false := by decide
  exact hall ⟨n, h⟩

theorem isLineBreak_of_mem_hexDigits {width n : Nat} {c : Char} (h : c ∈ hexDigits width n) :
    isLineBreak c = false := by
  induction width generalizing n with
  | zero => cases h
  | succ width ih =>
    rcases List.mem_append.mp h with h | h
    · exact ih h
    · rw [List.mem_singleton.mp h]
      exact isLineBreak_hexDigit (Nat.mod_lt _ (by decide))

/-- A backslash and one character. -/
theorem isLineBreak_of_mem_pair {escaped c : Char} (hescaped : isLineBreak escaped = false)
    (h : c ∈ ['\\', escaped]) : isLineBreak c = false := by
  rcases List.mem_cons.mp h with rfl | h
  · rfl
  · rwa [List.mem_singleton.mp h]

/-- A backslash, a letter and the digits of a code. -/
theorem isLineBreak_of_mem_escape {letter c : Char} {width n : Nat} (hletter : isLineBreak letter = false)
    (h : c ∈ '\\' :: letter :: hexDigits width n) : isLineBreak c = false := by
  rcases List.mem_cons.mp h with rfl | h
  · rfl
  rcases List.mem_cons.mp h with rfl | h
  · exact hletter
  · exact isLineBreak_of_mem_hexDigits h

theorem isLineBreak_of_mem_codePointEscape {n : Nat} {c : Char} (h : c ∈ codePointEscape n) :
    isLineBreak c = false := by
  unfold codePointEscape at h
  split_ifs at h
  · exact isLineBreak_of_mem_escape rfl h
  · exact isLineBreak_of_mem_escape rfl h
  · exact isLineBreak_of_mem_escape rfl h

theorem isLineBreak_of_mem_escapeChar {c d : Char} (h : d ∈ escapeChar c) : isLineBreak d = false := by
  unfold escapeChar at h
  split_ifs at h with hslash hquote hfeed hreturn htab
  · exact isLineBreak_of_mem_pair rfl h
  · exact isLineBreak_of_mem_pair rfl h
  · exact isLineBreak_of_mem_pair rfl h
  · exact isLineBreak_of_mem_pair rfl h
  · exact isLineBreak_of_mem_pair rfl h
  · rw [List.mem_singleton.mp h]
    simp [isLineBreak, hfeed, hreturn]

theorem quote_oneLine (s : String) : OneLine (quote s) := by
  rw [quote, oneLine_append, oneLine_append]
  refine ⟨⟨oneLine_literal rfl, oneLine_ofList.mpr fun d hd => ?_⟩, oneLine_literal rfl⟩
  obtain ⟨c, -, hd⟩ := List.mem_flatMap.mp hd
  exact isLineBreak_of_mem_escapeChar hd

theorem isLineBreak_chooseQuote (cs : List Char) : isLineBreak (chooseQuote cs) = false := by
  unfold chooseQuote
  split_ifs <;> rfl

theorem isLineBreak_of_mem_literalChar {q c d : Char} (hq : isLineBreak q = false) (h : d ∈ literalChar q c) :
    isLineBreak d = false := by
  unfold literalChar at h
  split_ifs at h with hquote hfeed hreturn htab hprintable
  · have hc : isLineBreak c = false := by
      rw [Bool.or_eq_true, beq_iff_eq, beq_iff_eq] at hquote
      rcases hquote with rfl | rfl
      · exact hq
      · rfl
    exact isLineBreak_of_mem_pair hc h
  · exact isLineBreak_of_mem_pair rfl h
  · exact isLineBreak_of_mem_pair rfl h
  · exact isLineBreak_of_mem_pair rfl h
  · rw [List.mem_singleton.mp h]
    simp [isLineBreak, hfeed, hreturn]
  · exact isLineBreak_of_mem_codePointEscape h

theorem literal_oneLine (s : String) : OneLine (literal s) := by
  unfold literal
  dsimp only
  have hq := isLineBreak_chooseQuote s.toList
  rw [oneLine_ofList]
  intro d hd
  rcases List.mem_cons.mp hd with rfl | hd
  · exact hq
  rcases List.mem_append.mp hd with hd | hd
  · obtain ⟨c, -, hd⟩ := List.mem_flatMap.mp hd
    exact isLineBreak_of_mem_literalChar hq hd
  · rwa [List.mem_singleton.mp hd]

theorem bytesLiteral_oneLine (data : List UInt8) : OneLine (bytesLiteral data) := by
  unfold bytesLiteral
  dsimp only
  have hq := isLineBreak_chooseQuote (data.map fun b => Char.ofNat b.toNat)
  rw [oneLine_ofList]
  intro d hd
  rcases List.mem_cons.mp hd with rfl | hd
  · rfl
  rcases List.mem_cons.mp hd with rfl | hd
  · exact hq
  rcases List.mem_append.mp hd with hd | hd
  · obtain ⟨byte, -, hd⟩ := List.mem_flatMap.mp hd
    unfold literalByte at hd
    dsimp only at hd
    split_ifs at hd
    · exact isLineBreak_of_mem_literalChar hq hd
    · exact isLineBreak_of_mem_codePointEscape hd
  · rwa [List.mem_singleton.mp hd]

end Text

/-! ## Values -/

namespace Value

open Number

theorem commaSeparated_oneLine {parts : List String} (h : ∀ part ∈ parts, OneLine part) :
    OneLine (commaSeparated parts) :=
  oneLine_intercalate (oneLine_literal rfl) h

mutual

/-- The program spelling of a value is on one line. -/
theorem literal_oneLine (v : Value) : OneLine v.literal := by
  cases v with
  | null => rw [literal]; exact oneLine_literal rfl
  | bool b =>
    rw [literal, boolText]
    split_ifs <;> exact oneLine_literal rfl
  | int n => rw [literal]; exact intText_oneLine n
  | float x origin => rw [literal]; exact program_oneLine x
  | text s => rw [literal]; exact Text.literal_oneLine s
  | date d => rw [literal]; exact Calendar.date_code_oneLine d
  | timestamp t => rw [literal]; exact Calendar.timestamp_code_oneLine t
  | bytes data => rw [literal]; exact bytesLiteral_oneLine data
  | list vs =>
    rw [literal, oneLine_append, oneLine_append]
    exact ⟨⟨oneLine_literal rfl, commaSeparated_oneLine (literals_oneLine vs)⟩, oneLine_literal rfl⟩
  | tuple vs =>
    rw [literal, oneLine_append, oneLine_append]
    refine ⟨⟨oneLine_literal rfl, commaSeparated_oneLine (literals_oneLine vs)⟩, ?_⟩
    split_ifs <;> exact oneLine_literal rfl
  | set vs =>
    rw [literal]
    split_ifs
    · exact oneLine_literal rfl
    · rw [oneLine_append, oneLine_append]
      exact ⟨⟨oneLine_literal rfl, commaSeparated_oneLine (literals_oneLine vs)⟩, oneLine_literal rfl⟩
  | map es =>
    rw [literal, oneLine_append, oneLine_append]
    exact ⟨⟨oneLine_literal rfl, commaSeparated_oneLine (literalEntries_oneLine es)⟩, oneLine_literal rfl⟩
  | endless outline content => rw [literal]; exact literal_oneLine outline
  | again mapping =>
    rw [literal]
    split_ifs <;> exact oneLine_literal rfl

theorem literals_oneLine (vs : List Value) : ∀ part ∈ literals vs, OneLine part := by
  match vs with
  | [] =>
    rw [literals]
    simp
  | v :: vs =>
    rw [literals, List.forall_mem_cons]
    exact ⟨literal_oneLine v, literals_oneLine vs⟩

theorem literalEntries_oneLine (es : List (Value × Value)) : ∀ part ∈ literalEntries es, OneLine part := by
  match es with
  | [] =>
    rw [literalEntries]
    simp
  | (k, v) :: es =>
    rw [literalEntries, List.forall_mem_cons, oneLine_append, oneLine_append]
    exact ⟨⟨⟨literal_oneLine k, oneLine_literal rfl⟩, literal_oneLine v⟩, literalEntries_oneLine es⟩

end

theorem spelled_oneLine {v : Value} {text : String} (h : v.spelled = .ok text) : OneLine text := by
  obtain ⟨_, -, h⟩ := bind_eq_ok.mp h
  obtain rfl := Except.ok.inj h
  exact literal_oneLine v

/-! ## JSON -/

theorem isLineBreak_of_mem_jsonChar {c d : Char} (h : d ∈ jsonChar c) : isLineBreak d = false := by
  unfold jsonChar at h
  split_ifs at h with hquote hslash hfeed hreturn htab hback hform hcontrol
  · exact isLineBreak_of_mem_pair rfl h
  · exact isLineBreak_of_mem_pair rfl h
  · exact isLineBreak_of_mem_pair rfl h
  · exact isLineBreak_of_mem_pair rfl h
  · exact isLineBreak_of_mem_pair rfl h
  · exact isLineBreak_of_mem_pair rfl h
  · exact isLineBreak_of_mem_pair rfl h
  · exact isLineBreak_of_mem_escape rfl h
  · rw [List.mem_singleton.mp h]
    simp [isLineBreak, hfeed, hreturn]

theorem jsonText_oneLine (s : String) : OneLine (jsonText s) := by
  rw [jsonText, oneLine_ofList]
  intro d hd
  rcases List.mem_cons.mp hd with rfl | hd
  · rfl
  rcases List.mem_append.mp hd with hd | hd
  · obtain ⟨c, -, hd⟩ := List.mem_flatMap.mp hd
    exact isLineBreak_of_mem_jsonChar hd
  · rw [List.mem_singleton.mp hd]
    rfl

theorem jsonBool_oneLine (b : Bool) : OneLine (jsonBool b) := by
  unfold jsonBool
  split_ifs <;> exact oneLine_literal rfl

theorem writtenInt_oneLine {n : Int} {text : String} (h : writtenInt n = .ok text) : OneLine text := by
  unfold writtenInt at h
  split_ifs at h
  obtain rfl := Except.ok.inj h
  exact intText_oneLine n

theorem jsonKey_oneLine {v : Value} {text : String} (h : v.jsonKey = .ok text) : OneLine text := by
  cases v with
  | int n =>
    obtain ⟨digits, -, h⟩ := bind_eq_ok.mp h
    obtain rfl := Except.ok.inj h
    exact jsonText_oneLine _
  | null | bool | float | text =>
    obtain rfl := Except.ok.inj h
    exact jsonText_oneLine _
  | _ => cases h

mutual

/-- The JSON text of a value is on one line. -/
theorem json_oneLine (v : Value) {text : String} (h : v.json = .ok text) : OneLine text := by
  cases v with
  | null =>
    rw [json] at h
    obtain rfl := Except.ok.inj h
    exact oneLine_literal rfl
  | bool b =>
    rw [json] at h
    obtain rfl := Except.ok.inj h
    exact jsonBool_oneLine b
  | int n =>
    rw [json] at h
    exact writtenInt_oneLine h
  | float x origin =>
    rw [json] at h
    obtain rfl := Except.ok.inj h
    exact json_float_oneLine x
  | text | date | timestamp | bytes =>
    rw [json] at h
    obtain rfl := Except.ok.inj h
    exact jsonText_oneLine _
  | list vs | tuple vs =>
    rw [json] at h
    obtain ⟨texts, htexts, h⟩ := bind_eq_ok.mp h
    obtain rfl := Except.ok.inj h
    rw [oneLine_append, oneLine_append]
    exact ⟨⟨oneLine_literal rfl, commaSeparated_oneLine (jsonItems_oneLine vs htexts)⟩, oneLine_literal rfl⟩
  | set vs =>
    rw [json] at h
    obtain ⟨spelled, -, h⟩ := bind_eq_ok.mp h
    obtain rfl := Except.ok.inj h
    exact jsonText_oneLine _
  | map es =>
    rw [json] at h
    obtain ⟨texts, htexts, h⟩ := bind_eq_ok.mp h
    obtain rfl := Except.ok.inj h
    rw [oneLine_append, oneLine_append]
    exact ⟨⟨oneLine_literal rfl, commaSeparated_oneLine (jsonEntries_oneLine es htexts)⟩, oneLine_literal rfl⟩
  | endless outline content =>
    rw [json] at h
    obtain ⟨shown, -, h⟩ := bind_eq_ok.mp h
    cases h
  | again mapping =>
    rw [json] at h
    cases h

theorem jsonItems_oneLine (vs : List Value) {texts : List String} (h : jsonItems vs = .ok texts) :
    ∀ part ∈ texts, OneLine part := by
  match vs with
  | [] =>
    rw [jsonItems] at h
    obtain rfl := Except.ok.inj h
    simp
  | v :: vs =>
    rw [jsonItems] at h
    obtain ⟨first, hfirst, h⟩ := bind_eq_ok.mp h
    obtain ⟨others, hothers, h⟩ := bind_eq_ok.mp h
    obtain rfl := Except.ok.inj h
    exact List.forall_mem_cons.mpr ⟨json_oneLine v hfirst, jsonItems_oneLine vs hothers⟩

theorem jsonEntries_oneLine (es : List (Value × Value)) {texts : List String} (h : jsonEntries es = .ok texts) :
    ∀ part ∈ texts, OneLine part := by
  match es with
  | [] =>
    rw [jsonEntries] at h
    obtain rfl := Except.ok.inj h
    simp
  | (k, v) :: es =>
    rw [jsonEntries] at h
    obtain ⟨key, hkey, h⟩ := bind_eq_ok.mp h
    obtain ⟨value, hvalue, h⟩ := bind_eq_ok.mp h
    obtain ⟨others, hothers, h⟩ := bind_eq_ok.mp h
    obtain rfl := Except.ok.inj h
    have hentry : OneLine (key ++ ": " ++ value) := by
      rw [oneLine_append, oneLine_append]
      exact ⟨⟨jsonKey_oneLine hkey, oneLine_literal rfl⟩, json_oneLine v hvalue⟩
    exact List.forall_mem_cons.mpr ⟨hentry, jsonEntries_oneLine es hothers⟩

end

end Value

end FlowScript
