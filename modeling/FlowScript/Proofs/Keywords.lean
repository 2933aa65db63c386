import FlowScript.Proofs.Detected
import FlowScript.Validation.Native
import Mathlib.Data.Bool.AllAny

/-!
# Extended keywords and the features in use

The check of native documents goes over the keys of all mappings as they are displayed, and detection over the
keys that are texts. A key that is no text is never displayed like a keyword, so the two see the same
keywords. The main statement is that the features in use are those of the keywords that the check of native
documents reports, and the one that markers show, and that each keyword is reported once, at its own path.
-/
namespace FlowScript

/-! ## Displayed keys -/

namespace Feature

/-- Keywords are made of small letters and underscores. -/
def isKeywordChar (c : Char) : Bool := c.isLower || c == '_'

theorem isKeywordChar_of_ofKeyword? {s : String} {feature : Feature} (h : ofKeyword? s = some feature) :
    ∀ c ∈ s.toList, isKeywordChar c = true := by
  have hall : ∀ entry ∈ keywords, entry.1.toList.all isKeywordChar = true :=
    List.all_iff_forall_prop.mp (by decide +kernel)
  obtain ⟨front, back, hsplit, -⟩ := List.lookup_eq_some_iff.mp h
  have hmem : (s, feature) ∈ keywords := hsplit ▸ List.mem_append_right _ List.mem_cons_self
  exact List.all_eq_true.mp (hall _ hmem)

theorem isKeywordChar_of_isDigit {c : Char} (h : c.isDigit = true) : isKeywordChar c = false := by
  rw [isKeywordChar, Bool.or_eq_false_iff]
  constructor
  · have hdigit : c.val ≥ 48 ∧ c.val ≤ 57 := by simpa [Char.isDigit] using h
    have hlower : c.isLower = (c.val ≥ 97 && c.val ≤ 122) := rfl
    rw [hlower]
    grind
  · rw [beq_eq_false_iff_ne]
    rintro rfl
    cases h

/-- A text with a character that keywords do not have. -/
def Foreign (s : String) : Prop := ∃ c ∈ s.toList, isKeywordChar c = false

theorem ofKeyword?_of_foreign {s : String} (h : Foreign s) : ofKeyword? s = none := by
  obtain ⟨c, hc, hforeign⟩ := h
  cases hfeature : ofKeyword? s with
  | none => rfl
  | some feature => simp [isKeywordChar_of_ofKeyword? hfeature c hc] at hforeign

theorem foreign_append {a b : String} (h : Foreign a ∨ Foreign b) : Foreign (a ++ b) := by
  simp only [Foreign, String.toList_append, List.mem_append]
  rcases h with ⟨c, hc, hforeign⟩ | ⟨c, hc, hforeign⟩
  · exact ⟨c, .inl hc, hforeign⟩
  · exact ⟨c, .inr hc, hforeign⟩

/-- A known text is looked through. -/
theorem foreign_of_any {s : String} (h : s.toList.any (!isKeywordChar ·) = true) : Foreign s := by
  obtain ⟨c, hc, hforeign⟩ := List.any_eq_true.mp h
  exact ⟨c, hc, by simpa using hforeign⟩

theorem foreign_ofList {c : Char} {cs : List Char} (hc : c ∈ cs) (h : isKeywordChar c = false) :
    Foreign (String.ofList cs) := ⟨c, by rwa [String.toList_ofList], h⟩

theorem foreign_intText (n : Int) : Foreign (Number.intText n) := by
  obtain ⟨c, cs, hcs⟩ := List.exists_cons_of_ne_nil (Nat.toDigits_ne_nil (n := n.natAbs) (b := 10))
  have hmem : c ∈ Number.digits n.natAbs := by rw [Number.digits, hcs]; exact List.mem_cons_self
  have hdigit : c.isDigit = true := Nat.isDigit_of_mem_toDigits (by decide) (by decide) hmem
  exact foreign_append (.inr (foreign_ofList hmem (isKeywordChar_of_isDigit hdigit)))

/-- A number that is laid out has a point or a signed exponent. -/
theorem foreign_layout (style : Number.Style) (ds : List Char) (lead : Int) :
    Foreign (Number.layout style ds lead) := by
  have hpoint : Foreign "." := foreign_of_any (by decide +kernel)
  have hzero : Foreign "0." := foreign_of_any (by decide +kernel)
  have hsign : Foreign (if lead < 0 then "-" else "+") := by
    split_ifs <;> exact foreign_of_any (by decide +kernel)
  unfold Number.layout
  split_ifs
  · exact foreign_append (.inl hzero)
  · exact foreign_append (.inl (foreign_append (.inr hpoint)))
  · exact foreign_append (.inr (foreign_append (.inl hsign)))

theorem ofKeyword?_floatText (x : Float) : ofKeyword? (Number.floatText .program x) = none := by
  unfold Number.floatText
  split
  · decide +kernel
  · split_ifs <;> decide +kernel
  · have hzero : Foreign "0.0" := foreign_of_any (by decide +kernel)
    have hminus : Foreign "-" := foreign_of_any (by decide +kernel)
    refine ofKeyword?_of_foreign ?_
    simp only [Number.Exact.text]
    split_ifs
    · exact foreign_append (.inl hminus)
    · exact foreign_append (.inl hminus)
    · exact hzero
    · exact foreign_layout _ _ _

/-- A quote is no character of a keyword. -/
theorem isKeywordChar_chooseQuote (cs : List Char) : isKeywordChar (Text.chooseQuote cs) = false := by
  unfold Text.chooseQuote
  split_ifs <;> decide

theorem foreign_dateText (d : Calendar.Date) : Foreign d.text := by
  have hdash : Foreign "-" := foreign_of_any (by decide +kernel)
  unfold Calendar.Date.text
  exact foreign_append (.inl (foreign_append (.inr hdash)))

/-- What a program would spell is never a keyword: texts are in quotes. -/
theorem ofKeyword?_literal (v : Value) : ofKeyword? v.literal = none := by
  have hdate : Foreign "datetime.date(" := foreign_of_any (by decide +kernel)
  have htime : Foreign "datetime.datetime(" := foreign_of_any (by decide +kernel)
  have hsquare : Foreign "[" := foreign_of_any (by decide +kernel)
  have hround : Foreign "(" := foreign_of_any (by decide +kernel)
  have hcurly : Foreign "\x7b" := foreign_of_any (by decide +kernel)
  cases v with
  | null => rw [Value.literal]; decide +kernel
  | bool b => rw [Value.literal]; cases b <;> decide +kernel
  | int n => rw [Value.literal]; exact ofKeyword?_of_foreign (foreign_intText n)
  | float x origin => rw [Value.literal]; exact ofKeyword?_floatText x
  | text s =>
    rw [Value.literal]
    exact ofKeyword?_of_foreign (foreign_ofList List.mem_cons_self (isKeywordChar_chooseQuote _))
  | date d =>
    rw [Value.literal]
    refine ofKeyword?_of_foreign ?_
    unfold Calendar.Date.code
    simp only [String.append_assoc]
    exact foreign_append (.inl hdate)
  | timestamp t =>
    rw [Value.literal]
    refine ofKeyword?_of_foreign ?_
    unfold Calendar.Timestamp.code
    simp only [String.append_assoc]
    exact foreign_append (.inl htime)
  | bytes data =>
    rw [Value.literal]
    exact ofKeyword?_of_foreign
      (foreign_ofList (List.mem_cons_of_mem _ List.mem_cons_self) (isKeywordChar_chooseQuote _))
  | list vs =>
    rw [Value.literal, String.append_assoc]
    exact ofKeyword?_of_foreign (foreign_append (.inl hsquare))
  | tuple vs =>
    rw [Value.literal, String.append_assoc]
    exact ofKeyword?_of_foreign (foreign_append (.inl hround))
  | set vs =>
    rw [Value.literal]
    split_ifs
    · decide +kernel
    · rw [String.append_assoc]
      exact ofKeyword?_of_foreign (foreign_append (.inl hcurly))
  | map es =>
    rw [Value.literal, String.append_assoc]
    exact ofKeyword?_of_foreign (foreign_append (.inl hcurly))
  | endless outline content =>
    rw [Value.literal]
    exact ofKeyword?_literal outline
  | again mapping => rw [Value.literal]; cases mapping <;> decide +kernel

/-- Only a text is displayed like a keyword. -/
theorem ofKeyword?_display {v : Value} (h : v.text? = none) : ofKeyword? v.display = none := by
  cases v with
  | text s => cases h
  | date d => exact ofKeyword?_of_foreign (foreign_dateText d)
  | timestamp t =>
    refine ofKeyword?_of_foreign ?_
    simp only [Value.display, Calendar.Timestamp.text, String.append_assoc]
    exact foreign_append (.inl (foreign_dateText t.date))
  | _ => exact ofKeyword?_literal _

end Feature

/-! ## Reported keywords -/

/-- What the message about an extended keyword starts with. -/
def keywordOpening : List Char := "Extended keyword '".toList

/-- The keyword that a diagnostic names. -/
def Diagnostic.keyword? (d : Diagnostic) : Option String :=
  if keywordOpening.isPrefixOf d.message.toList then
    some (String.ofList ((d.message.toList.drop keywordOpening.length).takeWhile (· != '\'')))
  else none

/-- An extended keyword in a document: a key of the mapping at a node. -/
structure KeywordUse where
  node : Value.Node
  keyword : String

namespace KeywordUse

def path (use : KeywordUse) : String := Value.keyPath use.node.path (.text use.keyword)

/-- The use of a keyword that a key is. -/
def ofKey? (node : Value.Node) (key : Value) : Option KeywordUse :=
  (key.text?.filter fun name => (Feature.ofKeyword? name).isSome).map fun name => ⟨node, name⟩

/-- The extended keywords among the keys of a node. -/
def ofNode (node : Value.Node) : List KeywordUse :=
  (node.value.fields?.getD []).filterMap fun e => ofKey? node e.1

/-- The extended keywords within a number of levels. -/
def all (levels : Nat) (document : Value) : List KeywordUse := (document.nodes levels "").flatMap ofNode

end KeywordUse

namespace Validation

/-- The warning about a key. -/
def keywordWarning (key path : String) : Diagnostic :=
  .warning .compatibility ("Extended keyword '" ++ key ++
    "' found in native mode and will be ignored by the automation engine. " ++
    "Declare 'engine: extended' or remove this construct.") path

/-- A key is reported as it is displayed, which is as a keyword only if it is one. -/
theorem map_ofKey? (node : Value.Node) (key : Value) :
    (KeywordUse.ofKey? node key).map (fun use => keywordWarning use.keyword use.path) =
      if (Feature.ofKeyword? key.display).isSome then
        some (keywordWarning key.display (Value.keyPath node.path key))
      else none := by
  cases htext : key.text? with
  | none => simp [KeywordUse.ofKey?, htext, Feature.ofKeyword?_display htext]
  | some name =>
    obtain rfl : key = .text name := by cases key <;> cases htext; rfl
    rw [KeywordUse.ofKey?, htext, Option.filter_some, Value.display]
    split_ifs <;> rfl

/-- There is one warning for each use of a keyword, in order. -/
theorem checkKeywords_eq (levels : Nat) (document : Value) :
    checkKeywords levels document =
      (KeywordUse.all levels document).map fun use => keywordWarning use.keyword use.path := by
  unfold checkKeywords Value.keys KeywordUse.all
  rw [List.filter_flatMap, List.map_flatMap, List.map_flatMap]
  refine List.flatMap_congr fun node _ => ?_
  rw [KeywordUse.ofNode, List.map_filterMap]
  simp only [map_ofKey?]
  induction node.value.fields?.getD [] with
  | nil => rfl
  | cons e es ih =>
    rw [List.map_cons, List.filter_cons, List.filterMap_cons]
    split_ifs
    · exact congrArg (List.cons _) ih
    · exact ih

theorem keyword?_keywordWarning {key : String} {feature : Feature} (h : Feature.ofKeyword? key = some feature)
    (path : String) : (keywordWarning key path).keyword? = some key := by
  obtain ⟨closing, hmessage, hclosing⟩ : ∃ closing, (keywordWarning key path).message =
      "Extended keyword '" ++ (key ++ closing) ∧ closing.toList.head? = some '\'' := by
    refine ⟨_, by rw [keywordWarning, Diagnostic.warning, String.append_assoc, String.append_assoc], ?_⟩
    decide +kernel
  obtain ⟨rest, hrest⟩ := List.head?_eq_some_iff.mp hclosing
  have hkey : ∀ c ∈ key.toList, (c != '\'') = true := by
    intro c hc
    rw [bne_iff_ne]
    rintro rfl
    exact absurd (Feature.isKeywordChar_of_ofKeyword? h _ hc) (by decide)
  have hsplit : (keywordWarning key path).message.toList = keywordOpening ++ (key.toList ++ '\'' :: rest) := by
    rw [hmessage, String.toList_append, String.toList_append, hrest]
    rfl
  have hopens : keywordOpening.isPrefixOf (keywordOpening ++ (key.toList ++ '\'' :: rest)) = true := by simp
  rw [Diagnostic.keyword?, hsplit, if_pos hopens, List.drop_left, List.takeWhile_append_of_pos hkey,
    List.takeWhile_cons_of_neg (by decide), List.append_nil, String.ofList_toList]

/-- Warnings about the form of actions name no keyword. -/
theorem keyword?_of_mem_checkFlatForm {visit : Walk.Visit} {d : Diagnostic} (h : d ∈ checkFlatForm visit) :
    d.keyword? = none := by
  obtain ⟨entry, -, rfl⟩ := List.mem_map.mp h
  have hopening : keywordOpening = 'E' :: "xtended keyword '".toList := by decide +kernel
  have hquote (rest : String) : keywordOpening.isPrefixOf ("'" ++ rest).toList = false := by
    have hhead : ("'" ++ rest).toList = '\'' :: rest.toList := by rw [String.toList_append]; rfl
    rw [hopening, hhead]
    rfl
  simp only [Diagnostic.keyword?, Diagnostic.warning, String.append_assoc, hquote]
  rfl

/-! ## Both sides -/

/-- The uses of a keyword are the mappings that have it as a key. -/
theorem exists_use_iff {levels : Nat} {document : Value} {key : String} {feature : Feature}
    (hkey : Feature.ofKeyword? key = some feature) :
    (∃ use ∈ KeywordUse.all levels document, use.keyword = key) ↔
      ∃ depth ≤ levels, ∃ v, document.Inside depth v ∧ ∃ e ∈ v.fields?.getD [], e.1.text? = some key := by
  have hofKey (node : Value.Node) (name : Value) :
      (∃ use, KeywordUse.ofKey? node name = some use ∧ use.keyword = key) ↔ name.text? = some key := by
    cases htext : name.text? with
    | none => simp [KeywordUse.ofKey?, htext]
    | some found =>
      simp only [KeywordUse.ofKey?, htext, Option.filter_some, Option.map_eq_some_iff, Option.some.injEq]
      constructor
      · rintro ⟨use, ⟨name, hname, rfl⟩, rfl⟩
        split_ifs at hname
        exact Option.some.inj hname
      · rintro rfl
        exact ⟨⟨node, found⟩, ⟨found, by rw [hkey]; rfl, rfl⟩, rfl⟩
  simp only [KeywordUse.all, KeywordUse.ofNode, List.mem_flatMap, List.mem_filterMap]
  constructor
  · rintro ⟨use, ⟨node, hnode, e, he, hofKey'⟩, huse⟩
    obtain ⟨depth, hdepth, hinside⟩ := Value.exists_node_iff.mp ⟨node, hnode, rfl⟩
    exact ⟨depth, hdepth, node.value, hinside, e, he, (hofKey node e.1).mp ⟨use, hofKey', huse⟩⟩
  · rintro ⟨depth, hdepth, v, hinside, e, he, htext⟩
    obtain ⟨node, hnode, rfl⟩ := Value.exists_node_iff.mpr ⟨depth, hdepth, hinside⟩
    obtain ⟨use, hofKey', huse⟩ := (hofKey node e.1).mpr htext
    exact ⟨use, ⟨node, hnode, e, he, hofKey'⟩, huse⟩

/-- A node shows the features of its keywords, or the one of its markers. -/
theorem mem_ofNode_iff {v : Value} {feature : Feature} :
    feature ∈ Feature.ofNode v ↔
      (∃ key, Feature.ofKeyword? key = some feature ∧ ∃ e ∈ v.fields?.getD [], e.1.text? = some key) ∨
      (feature = .variables ∧ ∃ s, v = .text s ∧ ∃ inner ∈ Marker.inners s, Marker.isEnvironment inner = false) := by
  by_cases htext : ∃ s, v = .text s
  · obtain ⟨s, rfl⟩ := htext
    have hnone : ((Value.text s).fields?.getD []) = [] := rfl
    simp only [Feature.ofNode, hnone, List.not_mem_nil, false_and, exists_false, and_false, false_or, Value.text.injEq,
      exists_eq_left', List.any_eq_true, Bool.not_eq_true']
    split_ifs with hany
    · rw [List.mem_singleton]
      exact (and_iff_left hany).symm
    · exact ⟨fun h => absurd h List.not_mem_nil, fun h => absurd h.2 hany⟩
  · have hfields : Feature.ofNode v =
        (v.fields?.getD []).filterMap fun e => e.1.text?.bind Feature.ofKeyword? := by
      cases v with
      | text s => exact absurd ⟨s, rfl⟩ htext
      | _ => rfl
    simp only [hfields, List.mem_filterMap, Option.bind_eq_some_iff]
    constructor
    · rintro ⟨e, he, key, hkey, hfeature⟩
      exact .inl ⟨key, hfeature, e, he, hkey⟩
    · rintro (⟨key, hfeature, e, he, hkey⟩ | ⟨-, s, rfl, -⟩)
      · exact ⟨e, he, key, hkey, hfeature⟩
      · exact absurd ⟨s, rfl⟩ htext

/-- Some text within a number of levels has a marker that is not of the environment. -/
def HasReference (levels : Nat) (document : Value) : Prop :=
  ∃ depth ≤ levels, ∃ s, document.Inside depth (.text s) ∧
    ∃ inner ∈ Marker.inners s, Marker.isEnvironment inner = false

/-- The features in use are those of the keywords that are used, and the variables if there is a reference. -/
theorem mem_used_iff_use {levels : Nat} {document : Value} {feature : Feature} :
    feature ∈ Feature.used levels document ↔
      (∃ key, (∃ use ∈ KeywordUse.all levels document, use.keyword = key) ∧ Feature.ofKeyword? key = some feature) ∨
      (feature = .variables ∧ HasReference levels document) := by
  rw [Feature.mem_used_iff]
  constructor
  · rintro ⟨depth, hdepth, v, hinside, hmem⟩
    rcases mem_ofNode_iff.mp hmem with ⟨key, hfeature, hkey⟩ | ⟨rfl, s, rfl, hmarker⟩
    · exact .inl ⟨key, (exists_use_iff hfeature).mpr ⟨depth, hdepth, v, hinside, hkey⟩, hfeature⟩
    · exact .inr ⟨rfl, depth, hdepth, s, hinside, hmarker⟩
  · rintro (⟨key, huse, hfeature⟩ | ⟨rfl, depth, hdepth, s, hinside, hmarker⟩)
    · obtain ⟨depth, hdepth, v, hinside, hkey⟩ := (exists_use_iff hfeature).mp huse
      exact ⟨depth, hdepth, v, hinside, mem_ofNode_iff.mpr (.inl ⟨key, hfeature, hkey⟩)⟩
    · exact ⟨depth, hdepth, _, hinside, mem_ofNode_iff.mpr (.inr ⟨rfl, s, rfl, hmarker⟩)⟩

/-- The keys of a document can be gone through if every node above the last level has paths for its children, and
if all keys can be written. -/
theorem checkAllKeys_eq_ok_iff {levels : Nat} {document : Value} :
    document.checkAllKeys levels = .ok () ↔ document.HasPaths levels ∧
      ∀ depth ≤ levels, ∀ v, document.Inside depth v → ∀ e ∈ v.fields?.getD [], e.1.isWritable = true := by
  have hkeys : (document.nodes levels "").forM (fun node => node.value.checkKeys) = .ok () ↔
      ∀ depth ≤ levels, ∀ v, document.Inside depth v → ∀ e ∈ v.fields?.getD [], e.1.isWritable = true := by
    simp only [Value.forM_eq_ok_iff, Value.checkKeys_eq_ok_iff]
    constructor
    · intro h depth hdepth v hinside
      obtain ⟨node, hnode, rfl⟩ := Value.exists_node_iff.mpr ⟨depth, hdepth, hinside⟩
      exact h node hnode
    · intro h node hnode
      obtain ⟨depth, hdepth, hinside⟩ := Value.exists_node_iff.mp ⟨node, hnode, rfl⟩
      exact h depth hdepth node.value hinside
  rw [← hkeys, ← Value.checkNodes_eq_ok_iff, Value.checkAllKeys]
  constructor
  · intro h
    obtain ⟨_, hnodes, hkeys⟩ := bind_eq_ok.mp h
    exact ⟨hnodes, hkeys⟩
  · rintro ⟨hnodes, hkeys⟩
    exact bind_eq_ok.mpr ⟨(), hnodes, hkeys⟩

theorem checkNative_eq_ok_iff {settings : Settings} {document : Value} {report : List Diagnostic} :
    checkNative settings document = .ok report ↔
      ∃ levels, settings.walkLevels = .ok levels ∧ document.checkAllKeys levels = .ok () ∧
        checkKeywords levels document ++
          (Walk.visits (document.walkTasks (fun _ => true) levels)).flatMap checkFlatForm = report := by
  rw [checkNative, bind_eq_ok]
  refine exists_congr fun levels => and_congr_right fun _ => ?_
  rw [bind_eq_ok]
  constructor
  · rintro ⟨_, hkeys, hreport⟩
    exact ⟨hkeys, Except.ok.inj hreport⟩
  · rintro ⟨hkeys, rfl⟩
    exact ⟨(), hkeys, rfl⟩

/-- The keywords that a report of the check of native documents names, with their locations. -/
theorem filterMap_keyword? {levels : Nat} {document : Value} {others : List Walk.Visit} :
    (checkKeywords levels document ++ others.flatMap checkFlatForm).filterMap
        (fun d => d.keyword?.map fun key => (key, d.location)) =
      (KeywordUse.all levels document).map fun use => (use.keyword, use.path) := by
  have hothers :
      (others.flatMap checkFlatForm).filterMap (fun d => d.keyword?.map fun key => (key, d.location)) = [] := by
    refine List.filterMap_eq_nil_iff.mpr fun d hd => ?_
    obtain ⟨visit, -, hd⟩ := List.mem_flatMap.mp hd
    rw [keyword?_of_mem_checkFlatForm hd, Option.map_none]
  have huses : ∀ use ∈ KeywordUse.all levels document,
      (keywordWarning use.keyword use.path).keyword?.map (fun key => (key, use.path)) =
        some (use.keyword, use.path) := by
    intro use huse
    obtain ⟨node, -, huse⟩ := List.mem_flatMap.mp huse
    obtain ⟨e, -, huse⟩ := List.mem_filterMap.mp huse
    obtain ⟨name, hname, rfl⟩ := Option.map_eq_some_iff.mp huse
    obtain ⟨-, hkeyword⟩ := Option.filter_eq_some_iff.mp hname
    obtain ⟨feature, hfeature⟩ := Option.isSome_iff_exists.mp hkeyword
    rw [keyword?_keywordWarning hfeature, Option.map_some]
  rw [List.filterMap_append, hothers, List.append_nil, checkKeywords_eq, List.filterMap_map,
    ← List.filterMap_eq_map]
  exact List.filterMap_congr huses

/-- The keywords that a report names are those that are used. -/
theorem named_iff {report : List Diagnostic} {uses : List KeywordUse}
    (h : report.filterMap (fun d => d.keyword?.map fun key => (key, d.location)) =
      uses.map fun use => (use.keyword, use.path)) {key : String} :
    (∃ d ∈ report, d.keyword? = some key) ↔ ∃ use ∈ uses, use.keyword = key := by
  constructor
  · rintro ⟨d, hd, hkey⟩
    have hmem : (key, d.location) ∈ report.filterMap (fun d => d.keyword?.map fun key => (key, d.location)) :=
      List.mem_filterMap.mpr ⟨d, hd, by rw [hkey, Option.map_some]⟩
    rw [h] at hmem
    obtain ⟨use, huse, heq⟩ := List.mem_map.mp hmem
    exact ⟨use, huse, congrArg Prod.fst heq⟩
  · rintro ⟨use, huse, rfl⟩
    have hmem : (use.keyword, use.path) ∈ uses.map (fun use => (use.keyword, use.path)) := List.mem_map_of_mem huse
    rw [← h] at hmem
    obtain ⟨d, hd, hnamed⟩ := List.mem_filterMap.mp hmem
    obtain ⟨key, hkey, heq⟩ := Option.map_eq_some_iff.mp hnamed
    exact ⟨d, hd, hkey.trans (congrArg some (congrArg Prod.fst heq))⟩

/-- The check of native documents answers exactly if the limit is a number and the keys of the document can be gone
through, and then detection answers too. The features in use are those of the keywords that the check names, and
the variables if a text has a marker that is not of the environment. The keywords are named one by one, each at
the path of its key, so there are as many warnings about them as pairs of a mapping and a keyword among its keys. -/
theorem native_keywords_agree (settings : Settings) (document : Value) :
    ((∃ report, checkNative settings document = .ok report) ↔
      ∃ levels, settings.walkLevels = .ok levels ∧ document.HasPaths levels ∧
        ∀ depth ≤ levels, ∀ v, document.Inside depth v → ∀ e ∈ v.fields?.getD [], e.1.isWritable = true) ∧
    ∀ report, checkNative settings document = .ok report →
      ∃ levels, settings.walkLevels = .ok levels ∧
        Feature.detect levels document = .ok (Feature.used levels document) ∧
        (∀ feature, feature ∈ Feature.used levels document ↔
          (∃ key, (∃ d ∈ report, d.keyword? = some key) ∧ Feature.ofKeyword? key = some feature) ∨
          (feature = .variables ∧ HasReference levels document)) ∧
        report.filterMap (fun d => d.keyword?.map fun key => (key, d.location)) =
          (KeywordUse.all levels document).map (fun use => (use.keyword, use.path)) ∧
        (report.filter (·.keyword?.isSome)).length = (KeywordUse.all levels document).length := by
  constructor
  · simp only [checkNative_eq_ok_iff, checkAllKeys_eq_ok_iff]
    constructor
    · rintro ⟨_, levels, hlevels, hkeys, -⟩
      exact ⟨levels, hlevels, hkeys⟩
    · rintro ⟨levels, hlevels, hkeys⟩
      exact ⟨_, levels, hlevels, hkeys, rfl⟩
  · intro report hreport
    obtain ⟨levels, hlevels, hkeys, hparts⟩ := checkNative_eq_ok_iff.mp hreport
    have hnamed : report.filterMap (fun d => d.keyword?.map fun key => (key, d.location)) =
        (KeywordUse.all levels document).map fun use => (use.keyword, use.path) := hparts ▸ filterMap_keyword?
    refine ⟨levels, hlevels, ?_, fun feature => ?_, hnamed, ?_⟩
    · rw [Feature.detect, Value.checkNodes_eq_ok_iff.mpr (checkAllKeys_eq_ok_iff.mp hkeys).1]
      rfl
    · simp only [mem_used_iff_use, named_iff hnamed]
    · have hlength := congrArg List.length hnamed
      rw [List.length_map, List.length_filterMap_eq_countP, List.countP_eq_length_filter] at hlength
      simpa only [Option.isSome_map] using hlength

/-- Keywords inside one another, a key that is no text, a marker, and an action in its nested form. -/
def keywordDocument : Value := .map [
  (.text "variables", .map [(.text "try", .text "$\x7bENV.HOME\x7d")]),
  (.bool true, .text "$\x7brows\x7d"),
  (.text "tasks", .list [.map [(.text "flow", .list [
    .map [(.text "aiInput", .map [(.text "value", .text "v")]), (.text "loop", .null)]])]])]

theorem keywordDocument_keywords_agree :
    ∃ report, checkNative {} keywordDocument = .ok report ∧ report.length = 4 ∧
      report.filterMap (fun d => d.keyword?.map fun key => (key, d.location)) =
        [("variables", "/variables"), ("try", "/variables/try"), ("loop", "/tasks[0]/flow[0]/loop")] ∧
      Feature.used 50 keywordDocument = [.loop, .variables, .guarded] := by
  have huses : (KeywordUse.all 50 keywordDocument).map (fun use => (use.keyword, use.path)) =
      [("variables", "/variables"), ("try", "/variables/try"), ("loop", "/tasks[0]/flow[0]/loop")] := by
    decide +kernel
  obtain ⟨report, hreport⟩ : ∃ report, checkNative {} keywordDocument = .ok report := ⟨_, rfl⟩
  have hlength : (checkNative {} keywordDocument).map List.length = .ok 4 := by decide +kernel
  obtain ⟨levels, hlevels, -, -, hnamed, -⟩ := (native_keywords_agree {} keywordDocument).2 report hreport
  obtain rfl : 50 = levels := Except.ok.inj hlevels
  rw [hreport] at hlength
  exact ⟨report, hreport, Except.ok.inj hlength, hnamed.trans huses, by decide +kernel⟩

end Validation

end FlowScript
