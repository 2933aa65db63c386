import FlowScript.Proofs.Pass

/-!
# Fields of values

What is known of the values under the names of a mapping: where they come from, when they are null, and
that a mapping that can be quoted has fields that can be quoted and written.
-/
namespace FlowScript

namespace Value

theorem eq_null_of_isNull {v : Value} (h : v.isNull = true) : v = .null := by
  cases v with
  | null => rfl
  | _ => cases h

theorem isNull_of_items? {v : Value} {vs : List Value} (h : v.items? = some vs) : v.isNull = false := by
  cases v <;> first | rfl | cases h

theorem isNull_of_fields? {v : Value} {es : Fields} (h : v.fields? = some es) : v.isNull = false := by
  cases v <;> first | rfl | cases h

end Value

namespace Fields

theorem get?_append (es fs : Fields) (name : String) :
    Fields.get? (es ++ fs) name = (es.get? name).or (fs.get? name) := by
  induction es with
  | nil => rfl
  | cons e rest ih =>
    simp only [List.cons_append, Fields.get?]
    split_ifs
    · rfl
    · exact ih

/-- A value that is found under a name is one of the entries. -/
theorem exists_mem_of_get? {es : Fields} {name : String} {v : Value} (h : es.get? name = some v) :
    ∃ key, key.text? = some name ∧ (key, v) ∈ es := by
  induction es with
  | nil => cases h
  | cons e rest ih =>
    obtain ⟨key, value⟩ := e
    rw [get?] at h
    by_cases hkey : key.isTextOf name = true
    · rw [if_pos hkey] at h
      cases h
      exact ⟨key, by simpa [Value.isTextOf] using hkey, List.mem_cons_self⟩
    · rw [if_neg hkey] at h
      obtain ⟨key', htext, hmem⟩ := ih h
      exact ⟨key', htext, List.mem_cons_of_mem _ hmem⟩

/-- The first of several fields that is not null is not null. -/
theorem isNull_of_firstOf? {es : Fields} {names : List String} {v : Value}
    (h : es.firstOf? names = some v) : v.isNull = false := by
  induction names with
  | nil => cases h
  | cons name names ih =>
    rw [firstOf?] at h
    by_cases hnull : (es.get name).isNull = true
    · rw [if_pos hnull] at h
      exact ih h
    · rw [if_neg hnull] at h
      cases h
      simpa using hnull

theorem isNull_firstOf?_getD (es : Fields) (names : List String) (fallback : String) :
    ((es.firstOf? names).getD (.text fallback)).isNull = false := by
  cases h : es.firstOf? names with
  | none => rfl
  | some v => exact isNull_of_firstOf? h

end Fields

/-! ## Values that can be quoted -/

namespace Value

variable {v : Value} {text : String}

theorem isWritable_of_writtenInt {n : Int} (h : writtenInt n = .ok text) : Number.isWritable n = true := by
  unfold writtenInt at h
  split_ifs at h with hn
  exact hn

theorem isWritable_of_jsonKey (h : jsonKey v = .ok text) : v.isWritable = true := by
  cases v with
  | int n =>
    obtain ⟨digits, hdigits, -⟩ := bind_eq_ok.mp h
    rw [isWritable]
    exact isWritable_of_writtenInt hdigits
  | null | bool | float | text => rw [isWritable]; all_goals simp
  | _ => cases h

theorem isWritable_of_checkWritable {u : Unit} (h : v.checkWritable = .ok u) : v.isWritable = true := by
  by_cases hv : v.isWritable = true
  · exact hv
  · rw [checkWritable, if_neg hv] at h
    cases h

mutual

/-- A value that can be quoted can be written. -/
theorem isWritable_of_json (v : Value) {text : String} (h : v.json = .ok text) : v.isWritable = true := by
  cases v with
  | int n =>
    rw [json] at h
    rw [isWritable, isWritable_of_writtenInt h]
  | list vs | tuple vs =>
    rw [json] at h
    obtain ⟨texts, htexts, -⟩ := bind_eq_ok.mp h
    rw [isWritable, areWritable_of_jsonItems vs htexts]
  | set vs =>
    rw [json] at h
    obtain ⟨spelled, hspelled, -⟩ := bind_eq_ok.mp h
    obtain ⟨u, hu, -⟩ := bind_eq_ok.mp hspelled
    exact isWritable_of_checkWritable hu
  | map es =>
    rw [json] at h
    obtain ⟨texts, htexts, -⟩ := bind_eq_ok.mp h
    rw [isWritable, entriesWritable_of_jsonEntries es htexts]
  | endless outline content =>
    rw [json] at h
    obtain ⟨shown, -, h⟩ := bind_eq_ok.mp h
    cases h
  | null | bool | float | text | date | timestamp | bytes | again => simp only [isWritable]

theorem areWritable_of_jsonItems (vs : List Value) {texts : List String} (h : jsonItems vs = .ok texts) :
    areWritable vs = true := by
  cases vs with
  | nil => rw [areWritable]
  | cons v vs =>
    rw [jsonItems] at h
    obtain ⟨first, hfirst, h⟩ := bind_eq_ok.mp h
    obtain ⟨others, hothers, -⟩ := bind_eq_ok.mp h
    rw [areWritable, isWritable_of_json v hfirst, areWritable_of_jsonItems vs hothers, Bool.and_true]

theorem entriesWritable_of_jsonEntries (es : List (Value × Value)) {texts : List String}
    (h : jsonEntries es = .ok texts) : entriesWritable es = true := by
  match es with
  | [] => rw [entriesWritable]
  | (k, v) :: es =>
    rw [jsonEntries] at h
    obtain ⟨key, hkey, h⟩ := bind_eq_ok.mp h
    obtain ⟨value, hvalue, h⟩ := bind_eq_ok.mp h
    obtain ⟨others, hothers, -⟩ := bind_eq_ok.mp h
    rw [entriesWritable, isWritable_of_jsonKey hkey, isWritable_of_json v hvalue,
      entriesWritable_of_jsonEntries es hothers, Bool.and_true, Bool.and_true]

end

/-- The entries of a mapping that can be quoted can be quoted, and their keys can be written. -/
theorem json_entry {es : Fields} (h : (Value.map es).json = .ok text) {key value : Value} (hmem : (key, value) ∈ es) :
    key.isWritable = true ∧ ∃ quoted, value.json = .ok quoted := by
  rw [json] at h
  obtain ⟨texts, htexts, -⟩ := bind_eq_ok.mp h
  clear h
  induction es generalizing texts with
  | nil => cases hmem
  | cons e es ih =>
    rw [jsonEntries] at htexts
    obtain ⟨spelled, hspelled, htexts⟩ := bind_eq_ok.mp htexts
    obtain ⟨first, hfirst, htexts⟩ := bind_eq_ok.mp htexts
    obtain ⟨others, hothers, -⟩ := bind_eq_ok.mp htexts
    rcases List.mem_cons.mp hmem with rfl | hmem
    · exact ⟨isWritable_of_jsonKey hspelled, first, hfirst⟩
    · exact ih hmem others hothers

/-- The field of a mapping that can be quoted can be quoted. -/
theorem json_get {es : Fields} (h : (Value.map es).json = .ok text) (name : String) :
    ∃ quoted, (es.get name).json = .ok quoted := by
  cases hget : es.get? name with
  | none => exact ⟨"null", by rw [Fields.get, hget, Option.getD_none, json]⟩
  | some value =>
    obtain ⟨key, -, hmem⟩ := Fields.exists_mem_of_get? hget
    rw [Fields.get, hget, Option.getD_some]
    exact (json_entry h hmem).2

theorem json_firstOf {es : Fields} (h : (Value.map es).json = .ok text) (names : List String) :
    ∃ quoted, (es.firstOf names).json = .ok quoted := by
  induction names with
  | nil => exact ⟨"null", by rw [Fields.firstOf, Fields.firstOf?, Option.getD_none, json]⟩
  | cons name names ih =>
    rw [Fields.firstOf, Fields.firstOf?]
    by_cases hnull : (es.get name).isNull = true
    · rw [if_pos hnull]
      exact ih
    · rw [if_neg hnull]
      exact json_get h name

/-- A collection that has no end cannot be quoted. -/
theorem eq_map_of_json {es : Fields} (h : v.json = .ok text) (hfields : v.fields? = some es) : v = .map es := by
  cases v with
  | map entries => exact congrArg Value.map (Option.some.inj hfields)
  | endless outline content =>
    rw [json] at h
    obtain ⟨shown, -, h⟩ := bind_eq_ok.mp h
    cases h
  | _ => cases hfields

/-- A mapping inside a mapping that can be quoted can be quoted. -/
theorem json_inside {es inside : Fields} (h : (Value.map es).json = .ok text) {name : String}
    (hfields : (es.get name).fields? = some inside) : ∃ quoted, (Value.map inside).json = .ok quoted := by
  obtain ⟨quoted, hquoted⟩ := json_get h name
  rw [eq_map_of_json hquoted hfields] at hquoted
  exact ⟨quoted, hquoted⟩

theorem shown_of_isWritable (h : v.isWritable = true) : v.shown = .ok v.display := by
  rw [shown, checkWritable, if_pos h]
  rfl

theorem shown_of_not_isWritable (h : v.isWritable = false) : v.shown = .error .integerTooLong := by
  rw [shown, checkWritable, h, if_neg Bool.false_ne_true]
  rfl

theorem shown_eq_ok_iff : v.shown = .ok text ↔ v.isWritable = true ∧ v.display = text := by
  cases h : v.isWritable with
  | true => simp [shown_of_isWritable h]
  | false => simp [shown_of_not_isWritable h]

end Value

end FlowScript
