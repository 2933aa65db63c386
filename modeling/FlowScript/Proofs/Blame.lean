import FlowScript.Compilation
import FlowScript.Proofs.Captured

/-!
# What stops a compilation

A problem in a single step becomes a comment and a warning; a document as a whole may be refused. Beyond that a
compilation is stopped only by values for which some operation has no result. The main statement names for
every such fault what in the document is to blame for it.
-/
namespace FlowScript

open Construct

variable {F : Fault → Prop}

/-! ## Tests of all parts of a value -/

namespace Value

mutual

/-- Whether a value and all its parts pass a test, the keys of mappings included. -/
def everywhere (p : Value → Bool) : Value → Bool
  | .list vs => p (.list vs) && allEverywhere p vs
  | .tuple vs => p (.tuple vs) && allEverywhere p vs
  | .set vs => p (.set vs) && allEverywhere p vs
  | .map es => p (.map es) && entriesEverywhere p es
  | .endless outline content => p (.endless outline content) && (everywhere p outline && everywhere p content)
  | v => p v

def allEverywhere (p : Value → Bool) : List Value → Bool
  | [] => true
  | v :: vs => everywhere p v && allEverywhere p vs

def entriesEverywhere (p : Value → Bool) : List (Value × Value) → Bool
  | [] => true
  | (k, v) :: es => everywhere p k && everywhere p v && entriesEverywhere p es

end

/-- The keys of a mapping are texts, and an integer can be written. -/
def isRegular : Value → Bool
  | .int n => Number.isWritable n
  | .map es => es.all fun e => e.1.isText
  | _ => true

theorem isRegular_int (n : Int) : isRegular (.int n) = Number.isWritable n := rfl

/-- A collection does not contain itself. -/
def isClosed : Value → Bool
  | .endless .. => false
  | .again _ => false
  | _ => true

section Everywhere

variable {p : Value → Bool} {v w : Value}

theorem everywhere_self (h : v.everywhere p = true) : p v = true := by
  cases v <;> simp only [everywhere, Bool.and_eq_true] at h
  case list | tuple | set | map | endless => exact h.1
  all_goals exact h

theorem allEverywhere_iff {vs : List Value} : allEverywhere p vs = true ↔ ∀ w ∈ vs, w.everywhere p = true := by
  induction vs with
  | nil => simp [allEverywhere]
  | cons v vs ih => rw [allEverywhere, Bool.and_eq_true, List.forall_mem_cons, ih]

theorem entriesEverywhere_iff {es : Fields} : entriesEverywhere p es = true ↔
    ∀ e ∈ es, e.1.everywhere p = true ∧ e.2.everywhere p = true := by
  induction es with
  | nil => simp [entriesEverywhere]
  | cons e es ih =>
    obtain ⟨k, v⟩ := e
    rw [entriesEverywhere, Bool.and_eq_true, Bool.and_eq_true, List.forall_mem_cons, ih]

theorem everywhere_items {vs : List Value} (h : v.everywhere p = true) (hitems : v.items? = some vs) :
    (Value.list vs).everywhere p = true := by
  unfold items? at hitems
  split at hitems
  · obtain rfl := Option.some.inj hitems
    exact h
  · obtain rfl := Option.some.inj hitems
    rw [everywhere, Bool.and_eq_true, Bool.and_eq_true] at h
    exact h.2.2
  · cases hitems

theorem everywhere_fields {es : Fields} (h : v.everywhere p = true) (hfields : v.fields? = some es) :
    (Value.map es).everywhere p = true := by
  unfold fields? at hfields
  split at hfields
  · obtain rfl := Option.some.inj hfields
    exact h
  · obtain rfl := Option.some.inj hfields
    rw [everywhere, Bool.and_eq_true, Bool.and_eq_true] at h
    exact h.2.2
  · cases hfields

theorem everywhere_mem {vs : List Value} (h : (Value.list vs).everywhere p = true) (hw : w ∈ vs) :
    w.everywhere p = true := by
  rw [everywhere, Bool.and_eq_true] at h
  exact allEverywhere_iff.mp h.2 w hw

theorem everywhere_entry {es : Fields} (h : (Value.map es).everywhere p = true) {e : Value × Value} (he : e ∈ es) :
    e.1.everywhere p = true ∧ e.2.everywhere p = true := by
  rw [everywhere, Bool.and_eq_true] at h
  exact entriesEverywhere_iff.mp h.2 e he

theorem everywhere_inside {depth : Nat} (h : v.everywhere p = true) (hw : v.Inside depth w) :
    w.everywhere p = true := by
  induction hw with
  | self => exact h
  | item hitems hmem _ ih => exact ih (everywhere_mem (everywhere_items h hitems) hmem)
  | entry hfields hmem _ ih => exact ih (everywhere_entry (everywhere_fields h hfields) hmem).2

end Everywhere

/-! ## Values that can be written and quoted -/

mutual

/-- A value can be written if all integers in it can. -/
theorem isWritable_of_everywhere {p : Value → Bool} (hp : ∀ n, p (.int n) = true → Number.isWritable n = true)
    (v : Value) (h : v.everywhere p = true) : v.isWritable = true := by
  cases v with
  | int n =>
    rw [isWritable]
    exact hp n (everywhere_self h)
  | list vs | tuple vs | set vs =>
    rw [everywhere, Bool.and_eq_true] at h
    rw [isWritable]
    exact areWritable_of_everywhere hp vs h.2
  | map es =>
    rw [everywhere, Bool.and_eq_true] at h
    rw [isWritable]
    exact entriesWritable_of_everywhere hp es h.2
  | endless outline content =>
    rw [everywhere, Bool.and_eq_true, Bool.and_eq_true] at h
    rw [isWritable]
    exact isWritable_of_everywhere hp outline h.2.1
  | null | bool | float | text | date | timestamp | bytes | again => rw [isWritable] <;> simp

theorem areWritable_of_everywhere {p : Value → Bool} (hp : ∀ n, p (.int n) = true → Number.isWritable n = true)
    (vs : List Value) (h : allEverywhere p vs = true) : areWritable vs = true := by
  cases vs with
  | nil => rw [areWritable]
  | cons v vs =>
    rw [allEverywhere, Bool.and_eq_true] at h
    rw [areWritable, isWritable_of_everywhere hp v h.1, areWritable_of_everywhere hp vs h.2]
    rfl

theorem entriesWritable_of_everywhere {p : Value → Bool}
    (hp : ∀ n, p (.int n) = true → Number.isWritable n = true) (es : List (Value × Value))
    (h : entriesEverywhere p es = true) : entriesWritable es = true := by
  cases es with
  | nil => rw [entriesWritable]
  | cons e es =>
    obtain ⟨k, v⟩ := e
    rw [entriesEverywhere, Bool.and_eq_true, Bool.and_eq_true] at h
    rw [entriesWritable, isWritable_of_everywhere hp k h.1.1, isWritable_of_everywhere hp v h.1.2,
      entriesWritable_of_everywhere hp es h.2]
    rfl

end

theorem isWritable_of_regular (v : Value) (h : v.everywhere isRegular = true) : v.isWritable = true :=
  isWritable_of_everywhere (fun n hn => (isRegular_int n).symm.trans hn) v h

theorem jsonKey_answers {key : Value} (h : key.isText = true) : Answers F (fun _ => True) key.jsonKey := by
  cases key with
  | text s => exact .ok trivial
  | _ => cases h

mutual

/-- A value with regular parts cannot be quoted only if a collection in it contains itself. -/
theorem json_answers (v : Value) (h : v.everywhere isRegular = true)
    (hend : v.everywhere isClosed = false → F .endlessJson) : Answers F (fun _ => True) v.json := by
  cases v with
  | null | bool | float | text | date | timestamp | bytes =>
    rw [json]
    exact .ok trivial
  | int n =>
    have hwritable := everywhere_self h
    rw [isRegular_int] at hwritable
    rw [json, writtenInt, if_pos hwritable]
    exact .ok trivial
  | list vs | tuple vs =>
    rw [everywhere, Bool.and_eq_true] at h
    simp only [everywhere, isClosed, Bool.true_and] at hend
    rw [json]
    exact .bind (jsonItems_answers vs h.2 hend) fun _ _ => .pure trivial
  | set vs =>
    have hwritable := isWritable_of_regular _ h
    rw [json]
    exact .bind (spelled_answers fun hlong => by cases hwritable.symm.trans hlong) fun _ _ => .pure trivial
  | map es =>
    have hkeys := everywhere_self h
    rw [everywhere, Bool.and_eq_true] at h
    simp only [everywhere, isClosed, Bool.true_and] at hend
    rw [json]
    exact .bind (jsonEntries_answers es (List.all_eq_true.mp hkeys) h.2 hend) fun _ _ => .pure trivial
  | endless outline content =>
    rw [everywhere, Bool.and_eq_true, Bool.and_eq_true] at h
    have hendless : F .endlessJson := hend (by rw [everywhere, isClosed, Bool.false_and])
    rw [json]
    exact .bind (json_answers outline h.2.1 fun _ => hendless) fun _ _ => .error hendless
  | again =>
    rw [json]
    exact .error (hend (by rw [everywhere, isClosed] <;> simp))

theorem jsonItems_answers (vs : List Value) (h : allEverywhere isRegular vs = true)
    (hend : allEverywhere isClosed vs = false → F .endlessJson) : Answers F (fun _ => True) (jsonItems vs) := by
  cases vs with
  | nil =>
    rw [jsonItems]
    exact .ok trivial
  | cons v vs =>
    rw [allEverywhere, Bool.and_eq_true] at h
    rw [allEverywhere, Bool.and_eq_false_iff] at hend
    rw [jsonItems]
    exact .bind (json_answers v h.1 fun hv => hend (.inl hv)) fun _ _ =>
      .bind (jsonItems_answers vs h.2 fun hvs => hend (.inr hvs)) fun _ _ => .pure trivial

theorem jsonEntries_answers (es : List (Value × Value)) (hkeys : ∀ e ∈ es, e.1.isText = true)
    (h : entriesEverywhere isRegular es = true) (hend : entriesEverywhere isClosed es = false → F .endlessJson) :
    Answers F (fun _ => True) (jsonEntries es) := by
  cases es with
  | nil =>
    rw [jsonEntries]
    exact .ok trivial
  | cons e es =>
    obtain ⟨k, v⟩ := e
    obtain ⟨hkey, hkeys⟩ := List.forall_mem_cons.mp hkeys
    rw [entriesEverywhere, Bool.and_eq_true, Bool.and_eq_true] at h
    rw [entriesEverywhere, Bool.and_eq_false_iff, Bool.and_eq_false_iff] at hend
    rw [jsonEntries]
    refine .bind (jsonKey_answers hkey) fun _ _ => ?_
    refine .bind (json_answers v h.1.2 fun hv => hend (.inl (.inr hv))) fun _ _ => ?_
    exact .bind (jsonEntries_answers es hkeys h.2 fun hes => hend (.inr hes)) fun _ _ => .pure trivial

end

/-! ## Deep values -/

theorem nestingDepthItems_le {vs : List Value} {w : Value} (hw : w ∈ vs) :
    w.nestingDepth ≤ nestingDepthItems vs := by
  induction vs with
  | nil => cases hw
  | cons v vs ih =>
    rw [nestingDepthItems]
    rcases List.mem_cons.mp hw with rfl | hw
    · exact Nat.le_max_left ..
    · exact Nat.le_trans (ih hw) (Nat.le_max_right ..)

theorem nestingDepthEntries_le {es : Fields} {e : Value × Value} (he : e ∈ es) :
    e.2.nestingDepth ≤ nestingDepthEntries es := by
  induction es with
  | nil => cases he
  | cons first es ih =>
    rw [nestingDepthEntries]
    rcases List.mem_cons.mp he with rfl | he
    · exact Nat.le_max_left ..
    · exact Nat.le_trans (ih he) (Nat.le_max_right ..)

/-- What has a part that is too deep is too deep itself. -/
theorem tooDeep_of_inside {v w : Value} {depth : Nat} (hw : v.Inside depth w) (hdeep : maxNesting < w.nestingDepth) :
    maxNesting < v.nestingDepth := by
  induction hw with
  | self => exact hdeep
  | item hitems hmem _ ih =>
    have hchild := ih hdeep
    unfold items? at hitems
    split at hitems
    · obtain rfl := Option.some.inj hitems
      have hle := nestingDepthItems_le hmem
      rw [nestingDepth]
      omega
    · rw [nestingDepth]
      exact Nat.lt_succ_self _
    · cases hitems
  | entry hfields hmem _ ih =>
    have hchild := ih hdeep
    unfold fields? at hfields
    split at hfields
    · obtain rfl := Option.some.inj hfields
      have hle : _ ≤ _ := nestingDepthEntries_le hmem
      dsimp only at hle
      rw [nestingDepth]
      omega
    · rw [nestingDepth]
      exact Nat.lt_succ_self _
    · cases hfields

end Value

/-! ## Integers in texts -/

namespace Number

theorem digitValue?_lt {c : Char} {d : Nat} (h : Text.digitValue? c = some d) : d < 10 := by
  unfold Text.digitValue? at h
  split_ifs at h with hascii hdigit
  · obtain rfl := Option.some.inj h
    unfold Char.isDigit at hdigit
    simp only [Bool.and_eq_true, decide_eq_true_eq] at hdigit
    have hle : c.toNat ≤ 57 := hdigit.2
    omega
  · obtain ⟨first, hfirst, rfl⟩ := Option.map_eq_some_iff.mp h
    have hrange := List.find?_some hfirst
    simp only [Bool.and_eq_true, decide_eq_true_eq] at hrange
    omega

theorem readDigitGroups_lt {cs : List Char} {ds : List Nat} (h : readDigitGroups cs = some ds) :
    ∀ d ∈ ds, d < 10 := by
  fun_induction readDigitGroups cs generalizing ds with
  | case1 => cases h
  | case2 c =>
    obtain ⟨d, hd, rfl⟩ := Option.map_eq_some_iff.mp h
    exact List.forall_mem_singleton.mpr (digitValue?_lt hd)
  | case3 c cs ih | case4 c cs hne hne' ih =>
    obtain ⟨d, hd, h⟩ := Option.bind_eq_some_iff.mp h
    obtain ⟨rest, hrest, h⟩ := Option.bind_eq_some_iff.mp h
    obtain rfl := Option.some.inj h
    exact List.forall_mem_cons.mpr ⟨digitValue?_lt hd, ih hrest⟩

theorem ofDigits_lt {ds : List Nat} (h : ∀ d ∈ ds, d < 10) : ofDigits 10 ds < 10 ^ ds.length := by
  have hfrom (n : Nat) : ds.foldl (fun n d => n * 10 + d) n < (n + 1) * 10 ^ ds.length := by
    induction ds generalizing n with
    | nil => simp
    | cons d ds ih =>
      obtain ⟨hd, hds⟩ := List.forall_mem_cons.mp h
      calc ds.foldl (fun n d => n * 10 + d) (n * 10 + d)
          < (n * 10 + d + 1) * 10 ^ ds.length := ih hds _
        _ ≤ ((n + 1) * 10) * 10 ^ ds.length := Nat.mul_le_mul_right _ (by omega)
        _ = (n + 1) * 10 ^ (d :: ds).length := by rw [List.length_cons, Nat.pow_succ', Nat.mul_assoc]
  have hstart := hfrom 0
  rwa [Nat.zero_add, Nat.one_mul] at hstart

theorem readInt?_isWritable {cs : List Char} {n : Int} (h : readInt? cs = some n) : isWritable n = true := by
  unfold readInt? at h
  obtain ⟨ds, hds, h⟩ := Option.bind_eq_some_iff.mp h
  split_ifs at h with hlength
  obtain rfl := Option.some.inj h
  have habs : (applySign (readSign (Text.trim cs)).negative (ofDigits 10 ds)).natAbs = ofDigits 10 ds := by
    unfold applySign
    split_ifs <;> omega
  refine isWritable_of_lt ?_ hlength
  rw [habs]
  exact ofDigits_lt (readDigitGroups_lt hds)

end Number

/-! ## Platforms -/

namespace Value

theorem everywhere_null (p : Value → Bool) : Value.null.everywhere p = p .null := by rw [everywhere] <;> simp

theorem everywhere_get {p : Value → Bool} (hnull : p .null = true) {es : Fields}
    (h : (Value.map es).everywhere p = true) (name : String) : (es.get name).everywhere p = true := by
  unfold Fields.get
  cases hv : es.get? name with
  | none => exact (everywhere_null p).trans hnull
  | some v =>
    obtain ⟨key, -, hmem⟩ := Fields.exists_mem_of_get? hv
    exact (everywhere_entry h hmem).2

/-- What kind of double a value is, if it is one. -/
def decoded? : Value → Option Number.Decoded
  | .float x _ => some (Number.decode x)
  | _ => none

/-- A value is an infinite double. -/
def IsInfinite (v : Value) : Prop := ∃ negative, v.decoded? = some (.infinite negative)

end Value

namespace Program

open Pass

theorem pixels_answers {v : Value} {default : Int} (h : v.everywhere Value.isRegular = true)
    (hdefault : Number.isWritable default = true) (hend : v.IsInfinite → F .infiniteCount) :
    Answers F (fun n => Number.isWritable n = true) (Platform.pixels v default) := by
  have hread (cs : List Char) : Number.isWritable ((Number.readInt? cs).getD default) = true := by
    cases hn : Number.readInt? cs with
    | none => exact hdefault
    | some n => exact Number.readInt?_isWritable hn
  unfold Platform.pixels
  split
  · exact .ok (Number.isWritable_of_small (by decide))
  · refine .ok ?_
    split_ifs
    · exact hdefault
    · exact (Value.isRegular_int _).symm.trans (Value.everywhere_self h)
  · split
    · exact .ok hdefault
    · rename_i x _ _ negative hx
      exact .error (hend ⟨negative, congrArg some hx⟩)
    · rename_i x _ _ exact' hx
      refine .ok ?_
      split_ifs
      · exact hdefault
      · exact Number.truncate_isWritable hx
  · exact .ok (hread _)
  · exact .ok (hread _)
  · exact .ok hdefault

/-- The names of the two lengths of a viewport. -/
def viewportNames : List String := ["viewportWidth", "viewport_width", "viewportHeight", "viewport_height"]

theorem either_answers {block : Fields} {first second : String} {default : Int}
    (h : (Value.map block).everywhere Value.isRegular = true) (hdefault : Number.isWritable default = true)
    (hend : ∀ name ∈ [first, second], (block.get name).IsInfinite → F .infiniteCount) :
    Answers F (fun n => Number.isWritable n = true)
      (Platform.pixels (Platform.either block first second) default) := by
  unfold Platform.either Value.orElse
  split_ifs
  · exact pixels_answers (Value.everywhere_get rfl h _) hdefault (hend first (by simp))
  · exact pixels_answers (Value.everywhere_get rfl h _) hdefault (hend second (by simp))

theorem ofBlock_answers {key : String} {block : Fields} (h : (Value.map block).everywhere Value.isRegular = true)
    (hend : ∀ name ∈ viewportNames, (block.get name).IsInfinite → F .infiniteCount) :
    Answers F (fun platform => Number.isWritable platform.viewportWidth = true ∧
      Number.isWritable platform.viewportHeight = true) (Platform.ofBlock key block) := by
  have hlength {first second : String} (hnames : [first, second] ⊆ viewportNames) {default : Int}
      (hn : default.natAbs < 10 ^ 4) := either_answers h (Number.isWritable_of_small hn)
        fun name hname => hend name (hnames hname)
  have hfield (name : String) : (block.get name).everywhere Value.isRegular = true := Value.everywhere_get rfl h name
  have hurl : ((block.get "url").orElse (.text "")).everywhere Value.isRegular = true := by
    unfold Value.orElse
    split_ifs
    · exact hfield _
    · rw [Value.everywhere] <;> simp [Value.isRegular]
  have hshown {v : Value} (hv : v.everywhere Value.isRegular = true) : Answers F (fun _ => True) v.shown :=
    Value.shown_answers_of_writable (v.isWritable_of_regular hv)
  have hargs : ∀ v ∈ Platform.argsOf (Platform.either block "chromeArgs" "chrome_args"),
      Answers F (fun _ => True) v.shown := by
    have heither : (Platform.either block "chromeArgs" "chrome_args").everywhere Value.isRegular = true := by
      unfold Platform.either Value.orElse
      split_ifs
      · exact hfield _
      · exact hfield _
    intro v hv
    unfold Platform.argsOf at hv
    split at hv
    · rename_i vs hitems
      exact hshown (Value.everywhere_mem (Value.everywhere_items heither hitems) hv)
    · split_ifs at hv
      · exact hshown (List.mem_singleton.mp hv ▸ heither)
      · cases hv
  refine .bind (hshown hurl) fun url _ => ?_
  refine .bind (hlength (by decide) (by decide)) fun width hwidth => ?_
  refine .bind (hlength (by decide) (by decide)) fun height hheight => ?_
  exact .bind (.mapM hargs) fun args _ => .pure ⟨hwidth, hheight⟩

/-- A block for a platform gives a length of the viewport that is infinite. -/
def InfiniteViewport (document : Fields) : Prop :=
  ∃ key ∈ Platform.keys, ∃ name ∈ viewportNames, ((document.get key).field name).IsInfinite

theorem platform_answers {document : Fields} (h : (Value.map document).everywhere Value.isRegular = true)
    (hend : InfiniteViewport document → F .infiniteCount) :
    Answers F (fun platform => Number.isWritable platform.viewportWidth = true ∧
      Number.isWritable platform.viewportHeight = true) (Platform.ofDocument document) := by
  have hdefault : Number.isWritable 1280 = true ∧ Number.isWritable 720 = true :=
    ⟨Number.isWritable_of_small (by decide), Number.isWritable_of_small (by decide)⟩
  unfold Platform.ofDocument
  split
  · exact .ok hdefault
  · rename_i key hkey
    split
    · exact .ok hdefault
    · rename_i block hblock
      have hfields := Value.everywhere_fields (Value.everywhere_get rfl h key) hblock
      refine ofBlock_answers hfields fun name hname hinf => ?_
      refine hend ⟨key, List.mem_of_find?_eq_some hkey, name, hname, ?_⟩
      unfold Value.field
      rw [hblock]
      exact hinf

/-! ## Whole programs -/

/-- Words on two sides of a blank are read apart. -/
theorem wordsFrom_append_blank {c : Char} (hc : Text.isBlank c = true) (current cs ds : List Char) :
    Text.wordsFrom current (cs ++ c :: ds) = Text.wordsFrom current cs ++ Text.wordsFrom [] ds := by
  induction cs generalizing current with
  | nil =>
    rw [List.nil_append, Text.wordsFrom, Text.wordsFrom, if_pos hc]
    split_ifs <;> rfl
  | cons first cs ih =>
    rw [List.cons_append, Text.wordsFrom, Text.wordsFrom]
    split_ifs
    · exact ih _
    · rw [ih, List.cons_append]
    · exact ih _

theorem checkStatement_launcherImports (factory : Factory) :
    ∀ statement ∈ Script.launcherImports factory, checkStatement statement = .ok () := by
  have hselect : checkStatement ("from " ++ factory.module ++ " import " ++ factory.className) = .ok () := by
    have hwords : Text.wordsFrom [] ("from " ++ factory.module ++ " import " ++ factory.className).toList =
        ["from".toList] ++ (Text.wordsFrom [] factory.module.toList ++
          (["import".toList] ++ Text.wordsFrom [] factory.className.toList)) := by
      have hshape : ("from " ++ factory.module ++ " import " ++ factory.className).toList =
          "from".toList ++ ' ' :: (factory.module.toList ++ ' ' :: ("import".toList ++ ' ' ::
            factory.className.toList)) := by
        simp [String.toList_append]
      have hblank : Text.isBlank ' ' = true := by decide
      rw [hshape, wordsFrom_append_blank hblank, wordsFrom_append_blank hblank, wordsFrom_append_blank hblank]
      rfl
    unfold checkStatement Text.words
    rw [hwords, if_neg]
    simp only [List.length_map, List.length_append, List.length_singleton]
    omega
  simp only [Script.launcherImports, List.forall_mem_cons]
  exact ⟨by decide +kernel, by decide +kernel, hselect, by simp⟩

theorem render_error {script : Script} {template : Template} {failure : Failure}
    (h : script.render template = .error failure)
    (himports : ∀ statement ∈ script.needs.imports, statement ∈ standardStatements)
    (hfactory : script.factory.isText = true) (hwidth : Number.isWritable script.platform.viewportWidth = true)
    (hheight : Number.isWritable script.platform.viewportHeight = true) : ∃ refusal, failure = .refused refusal := by
  have hneeds (need : Need) (hneed : script.needs.Has need) : need.isSound := by
    have hall : ∀ statement ∈ standardStatements, checkStatement statement = .ok () := by decide +kernel
    cases need with
    | statement s => exact hall s (himports s hneed)
    | helper => trivial
  cases template with
  | module =>
    obtain ⟨text, htext⟩ : ∃ text, script.needs.preamble [] thirdParty = .ok text :=
      exists_preamble _ hneeds (by simp)
    rw [Script.render, htext] at h
    cases h
  | playwright =>
    rw [Script.render, Factory.ofValue] at h
    cases hs : script.factory.text? with
    | none => simp [Value.isText, hs] at hfactory
    | some s =>
      rw [hs] at h
      dsimp only at h
      cases hread : Factory.read s with
      | error refusal =>
        rw [hread] at h
        exact ⟨refusal, (Except.error.inj h).symm⟩
      | ok factory =>
        obtain ⟨text, htext⟩ := exists_preamble (thirdParty ++ [before '.' factory.module]) hneeds
          (checkStatement_launcherImports factory)
        rw [hread, Value.writtenInt, Value.writtenInt, if_pos hwidth, if_pos hheight] at h
        simp only [liftRefusal, bind, Except.bind, htext, liftFault] at h
        cases h

end Program

/-! ## Who is to blame -/

open Program Program.Pass

/-- Limits and defaults that count are integers, the others are texts. -/
def Settings.isWellTyped (settings : Settings) : Bool :=
  [settings.maxFileSize.given, settings.maxWalkDepth.given, settings.maxImportDepth.given,
    settings.maxResolveDepth.given, settings.maxRepeatCount.given, settings.defaultMaxIterations,
    settings.defaultTimeoutMs].all (fun v => v matches .int _) &&
  [settings.reportDirectory, settings.indent, settings.template, settings.agentName, settings.agentFactory].all
    Value.isText

/-- A mapping inside a value has a property. -/
def Value.HasMapping (v : Value) (P : Fields → Prop) : Prop :=
  ∃ depth w es, v.Inside depth w ∧ w.fields? = some es ∧ P es

/-- A loop has a number of rounds of the given kind. -/
def RoundsAre (P : Value → Prop) (step : Step) : Prop := ∃ loop, Loop.read? step = some loop ∧ P loop.rounds

/-- What in a document and in the settings has to be for a compilation to be stopped by a fault. -/
def Blame (settings : Settings) (document : Value) : Fault → Prop
  | .operationNotHashable =>
    document.HasMapping fun step => ((step.get "data_transform").field "operation").isHashable = false
  | .pauseTooLong => document.HasMapping fun step => ∃ n, step.get "sleep" = .int n ∧ 2 ^ 1024 ≤ n.natAbs
  | .infiniteCount => document.HasMapping (RoundsAre Value.IsInfinite) ∨
    ∃ es, document.fields? = some es ∧ InfiniteViewport es
  | .countNotANumber => document.HasMapping (RoundsAre fun v => v.decoded? = some .notANumber)
  | .endlessJson => document.everywhere Value.isClosed = false
  | .tooDeep => Value.maxNesting < document.nestingDepth
  | .integerTooLong => settings.defaultMaxIterations.isWritable = false ∨
    settings.maxWalkDepth.given.isWritable = false ∨ settings.maxResolveDepth.given.isWritable = false
  | _ => False

theorem le_endlessPause : 2 ^ 1024 ≤ endlessPause := by
  unfold endlessPause
  -- The powers are too large to be computed.
  have hlt : 970 < 1024 := by decide
  generalize 1024 = most at hlt ⊢
  generalize 970 = step at hlt ⊢
  have htwice : 2 * 2 ^ step ≤ 2 ^ most := by
    rw [← Nat.pow_succ']
    exact Nat.pow_le_pow_right (by decide) hlt
  rw [Nat.pow_eq, Nat.pow_eq]
  omega

theorem pauseSeconds_error {v : Value} {f : Fault} (h : pauseSeconds v = .error f) :
    f = .pauseTooLong ∧ ∃ n, v = .int n ∧ 2 ^ 1024 ≤ n.natAbs := by
  unfold pauseSeconds at h
  split at h
  · rename_i n
    split_ifs at h with hlt
    exact ⟨(Except.error.inj h).symm, n, rfl, Nat.le_trans le_endlessPause (Nat.not_lt.mp hlt)⟩
  · cases h
  · cases h

theorem wholeCount_error {v : Value} {f : Fault} (h : wholeCount? v = .error f) :
    f = .countNotANumber ∧ v.decoded? = some .notANumber ∨ f = .infiniteCount ∧ v.IsInfinite := by
  unfold wholeCount? at h
  split at h
  · cases h
  · split at h
    · rename_i hx
      exact .inl ⟨(Except.error.inj h).symm, congrArg some hx⟩
    · rename_i negative hx
      exact .inr ⟨(Except.error.inj h).symm, negative, congrArg some hx⟩
    · cases h
  · cases h

section Blame

variable {settings : Settings} {document : Value}

theorem step_admits {w : Value} {depth : Nat} {step : Step} (hregular : document.everywhere Value.isRegular = true)
    (hw : document.Inside depth w) (hstep : w.fields? = some step) : step.Admits (Blame settings document) where
  keys e he hlong := by
    have hmap := Value.everywhere_fields (Value.everywhere_inside hregular hw) hstep
    cases (e.1.isWritable_of_regular (Value.everywhere_entry hmap he).1).symm.trans hlong
  quoted f hf := by
    have hmap := Value.everywhere_fields (Value.everywhere_inside hregular hw) hstep
    refine ((Value.map step).json_answers hmap fun hopen => ?_).fault hf
    -- A mapping that is gone through and contains itself is part of a document that does.
    by_contra hclosed
    have hpart := Value.everywhere_inside (eq_true_of_ne_false hclosed) hw
    cases (Value.everywhere_fields hpart hstep).symm.trans hopen
  operation inner hinner hop := by
    refine ⟨depth, w, step, hw, hstep, ?_⟩
    dsimp only
    rw [Value.field, hinner]
    exact hop
  rounds loop hloop f hf := by
    obtain ⟨rfl, hnan⟩ | ⟨rfl, hinf⟩ := wholeCount_error hf
    · exact ⟨depth, w, step, hw, hstep, loop, hloop, hnan⟩
    · exact .inl ⟨depth, w, step, hw, hstep, loop, hloop, hinf⟩
  pause f hf := by
    obtain ⟨rfl, hpause⟩ := pauseSeconds_error hf
    exact ⟨depth, w, step, hw, hstep, hpause⟩

/-- Every fault that the values of a regular document cause has something to blame in it. -/
theorem document_covers (hregular : document.everywhere Value.isRegular = true) :
    document.Covers (Blame settings document) := by
  intro depth w hw
  have hpart := Value.everywhere_inside hregular hw
  refine ⟨fun f hf => ?_, fun hlong => ?_, Value.tooDeep_of_inside hw, fun es hes => step_admits hregular hw hes⟩
  · refine (w.json_answers hpart fun hopen => ?_).fault hf
    by_contra hclosed
    cases (Value.everywhere_inside (eq_true_of_ne_false hclosed) hw).symm.trans hopen
  · cases (w.isWritable_of_regular hpart).symm.trans hlong

theorem settings_admits (h : settings.isWellTyped = true) : settings.Admits (Blame settings document) := by
  have hnumber {limit : Limit} (hint : (limit.given matches .int _) = true) : limit.isNumber = true := by
    unfold Limit.isNumber
    split at hint
    · rename_i hgiven
      rw [hgiven]
    · cases hint
  simp only [Settings.isWellTyped, Bool.and_eq_true, List.all_cons] at h
  refine ⟨fun hwalk => ?_, fun hresolve => ?_, .inl, fun hlong => .inr (.inl hlong), fun hlong => .inr (.inr hlong)⟩
  · cases (hnumber h.1.2.1).symm.trans hwalk
  · cases (hnumber h.1.2.2.2.1).symm.trans hresolve

/-- What a compilation may end with instead of a program: the document is refused, or something is to blame. -/
def Explained (settings : Settings) (document : Value) : Program.Failure → Prop
  | .refused _ => True
  | .fault f => Blame settings document f

theorem liftFault_explained {α : Type} {P : α → Prop} {e : Except Fault α} {failure : Program.Failure}
    (he : Answers (Blame settings document) P e) (h : liftFault e = .error failure) :
    Explained settings document failure := by
  cases e with
  | ok a => cases h
  | error f =>
    obtain rfl := Except.error.inj h
    exact he.fault rfl

theorem liftRefusal_eq_error {α : Type} {e : Except Refusal α} {failure : Program.Failure}
    (h : liftRefusal e = .error failure) : ∃ refusal, failure = .refused refusal := by
  cases e with
  | ok a => cases h
  | error refusal => exact ⟨refusal, (Except.error.inj h).symm⟩

theorem fields_of_compilable {fields : Fields} (h : liftRefusal (compilable document) = .ok fields) :
    document.fields? = some fields := by
  unfold compilable at h
  split at h
  · rename_i es hes
    split_ifs at h
    · cases h
    · cases h
    · rw [hes, Except.ok.inj h]
  · cases h

theorem exists_written {indent : Value} (block : Block) (level : Int) (h : indent.isText = true) :
    ∃ lines, block.written indent level = .ok lines := by
  cases indent with
  | text s =>
    unfold Block.written
    split_ifs
    · exact ⟨_, rfl⟩
    · exact ⟨_, rfl⟩
  | _ => cases h

theorem texts_of_isWellTyped (h : settings.isWellTyped = true) :
    settings.indent.isText = true ∧ settings.template.isText = true ∧ settings.agentFactory.isText = true := by
  simp only [Settings.isWellTyped, Bool.and_eq_true, List.all_cons] at h
  exact ⟨h.2.2.1, h.2.2.2.1, h.2.2.2.2.2.1⟩

theorem Value.isWritable_of_isText {v : Value} (h : v.isText = true) : v.isWritable = true := by
  cases v with
  | text => rw [isWritable] <;> simp
  | _ => cases h

/-- There is a template, or the name that is asked for is refused, or it cannot even be written. -/
theorem templateOf_error {requested : Value} {failure : Compilation.Failure} (hsettings : settings.isWellTyped = true)
    (h : Compilation.templateOf settings requested = .error failure) :
    (∃ refusal, failure = .refused refusal) ∨ failure = .fault .integerTooLong ∧ requested.isWritable = false := by
  obtain ⟨-, htemplate, -⟩ := texts_of_isWellTyped hsettings
  unfold Compilation.templateOf at h
  dsimp only at h
  split at h
  · cases h
  · cases hwritable : (requested.orElse settings.template).isWritable with
    | true =>
      rw [Value.shown_of_isWritable hwritable] at h
      exact .inl ⟨_, (Except.error.inj h).symm⟩
    | false =>
      rw [Value.shown_of_not_isWritable hwritable] at h
      refine .inr ⟨(Except.error.inj h).symm, ?_⟩
      unfold Value.orElse at hwritable
      split_ifs at hwritable
      · exact hwritable
      · cases (Value.isWritable_of_isText htemplate).symm.trans hwritable

theorem compileDocument_explained {ctx : Context} {template : Template} {name : String} {failure : Program.Failure}
    (hsettings : ctx.settings.isWellTyped = true) (hregular : document.everywhere Value.isRegular = true)
    (h : compileDocument ctx template name document = .error failure) :
    Explained ctx.settings document failure := by
  obtain ⟨hindent, -, hfactory⟩ := texts_of_isWellTyped hsettings
  unfold compileDocument at h
  rcases bind_eq_error.mp h with h | ⟨fields, hfields, h⟩
  · obtain ⟨refusal, rfl⟩ := liftRefusal_eq_error h
    trivial
  have hdocument := fields_of_compilable hfields
  have hcovers : Step.Covers (Blame ctx.settings document) fields := (document_covers hregular).step hdocument
  have hends : Ends (Blame ctx.settings document) (documentBlock ctx fields) :=
    documentBlock_ends (settings_admits hsettings) hcovers.fields
  rcases bind_eq_error.mp h with h | ⟨⟨block, state⟩, hrun, h⟩
  · exact liftFault_explained (.of_faults fun f hf => hends.faults hf) h
  rcases bind_eq_error.mp h with h | ⟨body, hbody, h⟩
  · obtain ⟨lines, hlines⟩ := exists_written (filled block) 1 hindent
    rw [hlines] at h
    cases h
  have hplatform := platform_answers (F := Blame ctx.settings document)
    (Value.everywhere_fields hregular hdocument) fun hinf => .inr ⟨fields, hdocument, hinf⟩
  rcases bind_eq_error.mp h with h | ⟨platform, hp, h⟩
  · exact liftFault_explained hplatform h
  obtain ⟨hwidth, hheight⟩ := hplatform.result (liftFault_eq_ok.mp hp)
  rcases bind_eq_error.mp h with h | ⟨code, -, h⟩
  · obtain ⟨refusal, rfl⟩ := render_error h (imports_standard (liftFault_eq_ok.mp hrun)) hfactory hwidth hheight
    trivial
  · cases h

end Blame

/-- A document that was read before, whose keys are texts and whose integers can be written, is compiled without
writing a file under settings of the expected types. If there is no program, then the document is refused as
a whole, or there is a fault and what is to blame for it stands in the document or the settings, or the name of
the template that is asked for cannot be written. -/
theorem failure_blamed {tree : File.Tree} {settings : Settings} {request : Compilation.Request} {document : Value}
    {failure : Compilation.Failure} (hsource : request.source = .value document) (houtput : request.output = none)
    (hsettings : settings.isWellTyped = true) (hregular : document.everywhere Value.isRegular = true)
    (h : compile tree settings request = .error failure) :
    (∃ refusal, failure = .refused refusal) ∨ ∃ f, failure = .fault f ∧
      (Blame settings document f ∨ f = .integerTooLong ∧ request.template.isWritable = false) := by
  unfold compile at h
  rw [hsource, houtput] at h
  rcases bind_eq_error.mp h with h | ⟨template, -, h⟩
  · refine (templateOf_error hsettings h).imp_right ?_
    rintro ⟨hfault, hlong⟩
    exact ⟨_, hfault, .inr ⟨rfl, hlong⟩⟩
  rcases bind_eq_error.mp h with h | ⟨loaded, hloaded, h⟩
  · cases h
  obtain rfl := Except.ok.inj hloaded
  rcases bind_eq_error.mp h with h | ⟨result, -, h⟩
  · generalize hresult : compileDocument _ _ _ document = result at h
    have hexplained (e : Program.Failure) (he : result = .error e) :
        Explained (request.context settings).settings document e :=
      compileDocument_explained hsettings hregular (hresult.trans he)
    rcases result with (refusal | f) | result
    · exact .inl ⟨refusal, (Except.error.inj h).symm⟩
    · exact .inr ⟨f, (Except.error.inj h).symm, .inl (hexplained _ rfl)⟩
    · cases h
  · cases h

/-- A step that transforms data by the given operation. -/
def transformBy (operation : Value) : Value :=
  .map [(.text "data_transform", .map [(.text "operation", operation)])]

/-- A list that has only itself in it, unrolled to a number of levels. -/
def listOfItself : Nat → Value
  | 0 => .again false
  | levels + 1 => .endless (.list [.again false]) (.list [listOfItself levels])

/-- Asks for a document of one task to be compiled to a module. -/
def moduleOf (flow : Flow) : Compilation.Request :=
  { source := .value (.map (oneTask flow)), template := .text "module" }

theorem unhashable_operation_blamed :
    compile { here := ⟨true, [], false⟩ } {} (moduleOf [transformBy (.list [])]) =
      .error (.fault .operationNotHashable) ∧
    Blame {} (.map (oneTask [transformBy (.list [])])) .operationNotHashable := by
  have hfault : compile { here := ⟨true, [], false⟩ } {} (moduleOf [transformBy (.list [])]) =
      .error (.fault .operationNotHashable) := rfl
  refine ⟨hfault, ?_⟩
  have hblamed := failure_blamed rfl rfl (by decide) (by decide +kernel) hfault
  obtain ⟨refusal, hrefused⟩ | ⟨f, hf, hblame | ⟨hlong, -⟩⟩ := hblamed
  · cases hrefused
  · cases hf
    exact hblame
  · cases hf
    cases hlong

/-- An operation that is neither a list nor a mapping stops a compilation, and so does a list that contains
itself. -/
theorem unlisted_values_stop_compilation :
    compile { here := ⟨true, [], false⟩ } {} (moduleOf [transformBy (.set [.text "a"])]) =
      .error (.fault .operationNotHashable) ∧
    (Value.map (oneTask [transformBy (.set [.text "a"])])).everywhere Value.isRegular = true ∧
    (Value.set [.text "a"]).isList = false ∧ (Value.set [.text "a"]).isMap = false ∧
    compile { here := ⟨true, [], false⟩ } {} (moduleOf [listOfItself 3]) = .error (.fault .endlessJson) ∧
    (Value.map (oneTask [listOfItself 3])).everywhere Value.isRegular = true := by
  refine ⟨rfl, by decide +kernel, rfl, rfl, rfl, by decide +kernel⟩

end FlowScript
