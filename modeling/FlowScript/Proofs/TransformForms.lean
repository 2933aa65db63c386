import FlowScript.Proofs.Indentation
import FlowScript.Proofs.Reading

/-!
# The two forms of a transform

A single operation can be written flat, with its parameters among the fields of the transform, or as a chain
of one. The flat form picks the parameters out of the fields by the names that the operation knows, and a
chain takes them over as they are. The main statement is that both are read alike, and so are compiled to the
same line and leave the same state.
-/
namespace FlowScript

/-! ## Parameters -/

namespace Fields

/-- Entries under texts. -/
def ofParams (params : List (String × Value)) : Fields := params.map fun param => (.text param.1, param.2)

theorem get?_text_cons (key : String) (v : Value) (es : Fields) (name : String) :
    Fields.get? ((.text key, v) :: es) name = if key = name then some v else es.get? name := by
  by_cases h : key = name <;> simp [get?, h, Value.isTextOf, Value.text?]

theorem ofParams_cons (key : String) (v : Value) (params : List (String × Value)) :
    ofParams ((key, v) :: params) = (.text key, v) :: ofParams params := rfl

theorem get?_ofParams_eq_none {params : List (String × Value)} {name : String} (h : name ∉ params.map (·.1)) :
    (ofParams params).get? name = none := by
  induction params with
  | nil => rfl
  | cons param params ih =>
    rw [List.map_cons, List.mem_cons, not_or] at h
    rw [ofParams_cons, get?_text_cons, if_neg (Ne.symm h.1), ih h.2]

/-- Parameters in the order of the names that are known are picked out one by one and in this order. -/
theorem filterMap_get?_ofParams {keys : List String} {params : List (String × Value)} (hnodup : keys.Nodup)
    (h : (params.map (·.1)).Sublist keys) :
    keys.filterMap (fun key => ((ofParams params).get? key).map fun v => (Value.text key, v)) = ofParams params := by
  induction keys generalizing params with
  | nil =>
    obtain rfl := List.map_eq_nil_iff.mp (List.sublist_nil.mp h)
    rfl
  | cons key keys ih =>
    obtain ⟨hfresh, hkeys⟩ := List.nodup_cons.mp hnodup
    rcases List.sublist_cons_iff.mp h with hskipped | ⟨rest, hrest, hsub⟩
    · have hnone : (ofParams params).get? key = none := get?_ofParams_eq_none fun hmem => hfresh (hskipped.subset hmem)
      rw [List.filterMap_cons, hnone, Option.map_none]
      exact ih hkeys hskipped
    · obtain ⟨⟨first, v⟩, params, rfl, rfl, rfl⟩ := List.map_eq_cons_iff.mp hrest
      have hothers : ∀ name ∈ keys, (ofParams ((first, v) :: params)).get? name = (ofParams params).get? name := by
        intro name hname
        rw [ofParams_cons, get?_text_cons, if_neg]
        rintro rfl
        exact hfresh hname
      have hrest := ih hkeys hsub
      rw [List.filterMap_cons, ofParams_cons, get?_text_cons, if_pos rfl, Option.map_some, ← ofParams_cons,
        List.filterMap_congr fun name hname => by rw [hothers name hname], hrest]
      rfl

/-- Of two names one of which is not given, the other decides. -/
theorem firstOf?_of_either {es : Fields} {first second : String} {v : Value}
    (h : es.get first = .null ∧ es.get second = v ∨ es.get first = v ∧ es.get second = .null) :
    es.firstOf? [first, second] = if v.isNull then none else some v := by
  have hnull : Value.null.isNull = true := rfl
  rcases h with ⟨hfirst, hsecond⟩ | ⟨hfirst, hsecond⟩
  · simp [firstOf?, hfirst, hsecond, hnull]
  · simp [firstOf?, hfirst, hsecond, hnull]

end Fields

namespace Construct

/-! ## Operations -/

namespace Operation

theorem named?_name (op : Operation) : named? op.name = some op := by cases op <;> decide +kernel

theorem flatKeys_nodup (op : Operation) : op.flatKeys.Nodup := by cases op <;> decide +kernel

/-- The fields that a transform has besides parameters. -/
def formKeys : List String := ["input", "source", "operation", "operations", "output", "name"]

theorem not_mem_flatKeys (op : Operation) {name : String} (h : name ∈ formKeys) : name ∉ op.flatKeys := by
  have hall : ∀ key ∈ formKeys, key ∉ op.flatKeys := by cases op <;> decide +kernel
  exact hall name h

/-- An entry with the name of an operation alone is about this operation. -/
theorem find?_has (op : Operation) (v : Value) :
    all.find? (fun other => Fields.has [(.text op.name, v)] other.name) = some op := by
  have hhas (other : Operation) : Fields.has [(.text op.name, v)] other.name = (op.name == other.name) := by
    by_cases h : op.name = other.name <;> simp [Fields.has, Fields.get?, Value.isTextOf, Value.text?, h]
  simp only [hhas]
  cases op <;> decide +kernel

end Operation

/-! ## Both forms -/

namespace Transform

/-- A transform with one operation, whose parameters are among its fields. -/
def flatForm (source : Value) (op : Operation) (params : List (String × Value)) (output : Value) : Fields :=
  [(.text "source", source), (.text "operation", .text op.name)] ++ Fields.ofParams params ++
    [(.text "name", output)]

/-- A transform with a chain of one operation, whose parameters are a mapping of their own. -/
def chainForm (source : Value) (op : Operation) (params : List (String × Value)) (output : Value) : Fields :=
  [(.text "input", source),
    (.text "operations", .list [.map [(.text op.name, .map (Fields.ofParams params))]]),
    (.text "output", output)]

/-- The step of a transform. -/
def toStep (transform : Fields) : Step := [(.text "data_transform", .map transform)]

/-- What both forms are read as. -/
def single (source : Value) (op : Operation) (params : List (String × Value)) (output : Value) : Transform where
  source := source
  stages := [⟨op, .null, Fields.ofParams params⟩]
  output := if output.isNull then .text defaultOutput else output
  unknown := []

variable {op : Operation} {params : List (String × Value)} (source output : Value)

/-- The fields of a flat transform that are no parameters. -/
theorem get?_flatForm (h : (params.map (·.1)).Sublist op.flatKeys) {name : String} (hname : name ∈ Operation.formKeys) :
    (flatForm source op params output).get? name =
      Fields.get? [(.text "source", source), (.text "operation", .text op.name), (.text "name", output)] name := by
  have hnone : (Fields.ofParams params).get? name = none :=
    Fields.get?_ofParams_eq_none fun hmem => op.not_mem_flatKeys hname (h.subset hmem)
  simp only [flatForm, List.cons_append, List.nil_append, Fields.get?_text_cons, Fields.get?_append, hnone,
    Option.none_or]

/-- A parameter of a flat transform is none of its other fields. -/
theorem get?_flatForm_param {key : String} (hkey : key ∈ op.flatKeys) :
    (flatForm source op params output).get? key = (Fields.ofParams params).get? key := by
  have hne (name : String) (hname : name ∈ Operation.formKeys) : name ≠ key := by
    rintro rfl
    exact op.not_mem_flatKeys hname hkey
  have hsource := hne "source" (by decide)
  have hoperation := hne "operation" (by decide)
  have houtput := hne "name" (by decide)
  rw [flatForm, Fields.get?_append, List.cons_append, List.singleton_append, Fields.get?_text_cons, if_neg hsource,
    Fields.get?_text_cons, if_neg hoperation, Fields.get?_text_cons, if_neg houtput, Fields.get?, Option.or_none]

theorem flatParams_flatForm (h : (params.map (·.1)).Sublist op.flatKeys) :
    flatParams (flatForm source op params output) op = Fields.ofParams params := by
  rw [flatParams, List.filterMap_congr fun key hkey => by rw [get?_flatForm_param source output hkey]]
  exact Fields.filterMap_get?_ofParams op.flatKeys_nodup h

/-- A transform is determined by its source, its stages and its output, under whichever names these are given. -/
theorem ofFields_eq_single {transform : Fields} {flat : Parts} (hflat : flatParts transform = .ok flat)
    (hstages : flat.stages ++ (chainParts transform).stages = [⟨op, .null, Fields.ofParams params⟩])
    (hunknown : flat.unknown ++ (chainParts transform).unknown = [])
    (hsource : transform.get "input" = .null ∧ transform.get "source" = source ∨
      transform.get "input" = source ∧ transform.get "source" = .null)
    (houtput : transform.get "output" = .null ∧ transform.get "name" = output ∨
      transform.get "output" = output ∧ transform.get "name" = .null) :
    ofFields transform = .ok (single source op params output) := by
  have hread : ofFields transform = .ok
      { source := transform.firstOf sourceKeys
        stages := flat.stages ++ (chainParts transform).stages
        output := (transform.firstOf? outputKeys).getD (.text defaultOutput)
        unknown := flat.unknown ++ (chainParts transform).unknown } := by
    rw [ofFields, hflat]
    rfl
  have hfrom : transform.firstOf sourceKeys = source := by
    rw [Fields.firstOf, sourceKeys, Fields.firstOf?_of_either hsource]
    cases hnull : source.isNull with
    | true => exact (Value.eq_null_of_isNull hnull).symm
    | false => rfl
  have hto : (transform.firstOf? outputKeys).getD (.text defaultOutput) = (single source op params output).output := by
    rw [outputKeys, Fields.firstOf?_of_either houtput, single]
    cases output.isNull <;> rfl
  rw [hread, hstages, hunknown, hfrom, hto]
  rfl

theorem ofFields_flatForm (h : (params.map (·.1)).Sublist op.flatKeys) :
    ofFields (flatForm source op params output) = .ok (single source op params output) := by
  have hget {name : String} (hname : name ∈ Operation.formKeys) {v : Value}
      (hv : Fields.get [(.text "source", source), (.text "operation", .text op.name), (.text "name", output)] name =
        v) :
      (flatForm source op params output).get name = v := by
    rw [Fields.get, get?_flatForm source output h hname]
    exact hv
  have hop : (flatForm source op params output).get "operation" = .text op.name := hget (by decide) rfl
  have hparts : flatParts (flatForm source op params output) =
      .ok ⟨[⟨op, .null, Fields.ofParams params⟩], []⟩ := by
    simp only [flatParts, hop, op.named?_name, flatParams_flatForm source output h]
  have hchain : chainParts (flatForm source op params output) = ⟨[], []⟩ := by
    rw [chainParts, hget (by decide) rfl]
    rfl
  refine ofFields_eq_single source output hparts ?_ ?_ (.inl ⟨hget (by decide) rfl, hget (by decide) rfl⟩)
    (.inl ⟨hget (by decide) rfl, hget (by decide) rfl⟩)
  · rw [hchain, List.append_nil]
  · rw [hchain, List.append_nil]

/-- One entry of a chain takes its parameters over as they are. -/
theorem chained?_single (h : (params.map (·.1)).Sublist op.flatKeys) :
    chained? (.map [(.text op.name, .map (Fields.ofParams params))]) =
      some ⟨op, .null, Fields.ofParams params⟩ := by
  have hinsert : Fields.insertAll [] (Fields.ofParams params) = Fields.ofParams params :=
    Fields.ofEntries_text (h.nodup op.flatKeys_nodup)
  have hbeside : Fields.without [(.text op.name, .map (Fields.ofParams params))] [op.name] = [] := by
    simp [Fields.without, Value.isTextOf, Value.text?]
  have hargument : Fields.get [(.text op.name, .map (Fields.ofParams params))] op.name =
      .map (Fields.ofParams params) := by
    rw [Fields.get, Fields.get?_text_cons, if_pos rfl, Option.getD_some]
  rw [chained?]
  simp only [Value.fields?, Option.bind_eq_bind, Option.bind_some, op.find?_has, hbeside, hargument, hinsert]
  rfl

theorem ofFields_chainForm (h : (params.map (·.1)).Sublist op.flatKeys) :
    ofFields (chainForm source op params output) = .ok (single source op params output) := by
  have hchain : chainParts (chainForm source op params output) = ⟨[⟨op, .null, Fields.ofParams params⟩], []⟩ := by
    have hentries : ((chainForm source op params output).get "operations").items =
        [.map [(.text op.name, .map (Fields.ofParams params))]] := rfl
    simp [chainParts, hentries, chained?_single h]
  have hparts : flatParts (chainForm source op params output) = .ok ⟨[], []⟩ := rfl
  refine ofFields_eq_single source output hparts ?_ ?_ (.inr ⟨rfl, rfl⟩) (.inr ⟨rfl, rfl⟩)
  · rw [hchain, List.nil_append]
  · rw [hchain, List.nil_append]

theorem read?_toStep (transform : Fields) : read? (toStep transform) = (ofFields transform).map some := rfl

end Transform

end Construct

namespace Program

open Construct Pass

/-- The lines of a step that stands at a level. -/
def stepLines (ctx : Context) (nested : Flow → Pass Block) (level : Int) (step : Step) : Pass (List String) := do
  let block ← stepBlock ctx nested step
  liftM (block.written ctx.settings.indent level)

theorem stepBlock_toStep (ctx : Context) (nested : Flow → Pass Block) (transform : Fields) :
    stepBlock ctx nested (Transform.toStep transform) = transformBlock ctx (Transform.toStep transform) := rfl

/-- Only what a step is read as matters for a transform that is read. -/
theorem transformBlock_congr {ctx : Context} {step step' : Step} {transform : Transform}
    (h : Transform.read? step = .ok (some transform)) (h' : Transform.read? step' = .ok (some transform)) :
    transformBlock ctx step = transformBlock ctx step' := by
  rw [transformBlock, transformBlock, h, h']
  rfl

theorem nameOr_single (source : Value) (op : Operation) (params : List (String × Value)) (output : Value) :
    nameOr (Transform.single source op params output).output Transform.defaultOutput =
      nameOr output Transform.defaultOutput := by
  rw [Transform.single]
  cases hnull : output.isNull with
  | true =>
    obtain rfl := Value.eq_null_of_isNull hnull
    change nameOr (.text Transform.defaultOutput) Transform.defaultOutput = nameOr .null Transform.defaultOutput
    decide +kernel
  | false => rfl

/-- One operation is one assignment: nothing is skipped, and there is no stage before it. -/
theorem transformBlock_single {ctx : Context} {step : Step} {source output : Value} {op : Operation}
    {params : List (String × Value)} {s s' : State} {b : Block}
    (hread : Transform.read? step = .ok (some (Transform.single source op params output)))
    (h : (transformBlock ctx step).Runs s b s') :
    ∃ data code, (∃ t t', (sourceCode ctx source (nameOr output Transform.defaultOutput)).Runs t data t') ∧
      (∃ t, (stageCode ctx ⟨op, .null, Fields.ofParams params⟩ data).Runs t code s') ∧
      b = [.line (.assign (nameOr output Transform.defaultOutput) code)] := by
  simp only [transformBlock, hread, runs_bind, runs_lift] at h
  obtain ⟨_, _, ⟨he, rfl⟩, h⟩ := h
  obtain rfl := Except.ok.inj he
  simp only [runs_bind] at h
  obtain ⟨target, t, htarget, data, t', hdata, comments, _, hcomments, _, r, -, h⟩ := h
  obtain ⟨rfl, -⟩ := runs_each_nil.mp hcomments
  obtain rfl : target = nameOr output Transform.defaultOutput := (targetName_spec htarget).1.trans (nameOr_single ..)
  simp only [Transform.single, List.isEmpty_cons, Bool.false_eq_true, if_false, stagesBlock, runs_bind,
    runs_pure] at h
  obtain ⟨_, _, ⟨code, _, hcode, _, _, ⟨rfl, rfl⟩, rfl, rfl⟩, rfl, rfl⟩ := h
  exact ⟨data, code, ⟨t, t', hdata⟩, ⟨r, hcode⟩, rfl⟩

/-- Both forms of a transform with one operation are read as the same transform. So they have the same lines at
every level and leave the same warnings, names, imports and helpers, or fail in the same way, and what comes out
is the assignment of the operation to the output. -/
theorem flat_transform_eq_chain (ctx : Context) (nested : Flow → Pass Block) {op : Operation}
    {params : List (String × Value)} (hparams : (params.map (·.1)).Sublist op.flatKeys) (source output : Value) :
    let flat := Transform.toStep (Transform.flatForm source op params output)
    let chain := Transform.toStep (Transform.chainForm source op params output)
    Transform.read? flat = .ok (some (Transform.single source op params output)) ∧
    Transform.read? chain = .ok (some (Transform.single source op params output)) ∧
    (∀ (level : Int) (s : State), (stepLines ctx nested level flat).run s = (stepLines ctx nested level chain).run s) ∧
    ∀ (s s' : State) (b : Block), (stepBlock ctx nested flat).Runs s b s' →
      ∃ data code, (∃ t t', (sourceCode ctx source (nameOr output Transform.defaultOutput)).Runs t data t') ∧
        (∃ t, (stageCode ctx ⟨op, .null, Fields.ofParams params⟩ data).Runs t code s') ∧
        b = [.line (.assign (nameOr output Transform.defaultOutput) code)] := by
  intro flat chain
  have hflat : Transform.read? flat = .ok (some (Transform.single source op params output)) := by
    rw [Transform.read?_toStep, Transform.ofFields_flatForm source output hparams]
    rfl
  have hchain : Transform.read? chain = .ok (some (Transform.single source op params output)) := by
    rw [Transform.read?_toStep, Transform.ofFields_chainForm source output hparams]
    rfl
  have hblock : stepBlock ctx nested flat = stepBlock ctx nested chain := by
    rw [stepBlock_toStep, stepBlock_toStep]
    exact transformBlock_congr hflat hchain
  refine ⟨hflat, hchain, fun level s => ?_, fun s s' b h => ?_⟩
  · rw [stepLines, stepLines, hblock]
  · rw [stepBlock_toStep] at h
    exact transformBlock_single hflat h

/-- Parameters of a sort, with a field that is left out. -/
def latestFirst : List (String × Value) := [("by", .text "date"), ("order", .text "desc")]

theorem latestFirst_eq_chain :
    (latestFirst.map (·.1)).Sublist Operation.sort.flatKeys ∧
    ((stepLines {} (fun _ => pure []) 1 (Transform.toStep
        (Transform.flatForm (.list []) .sort latestFirst (.text "posts")))).run {}).map (·.1) =
      .ok ["    posts = sorted([], key=lambda item: _sort_key(item, 'date'), reverse=True)"] ∧
    (stepLines {} (fun _ => pure []) 1 (Transform.toStep
        (Transform.flatForm (.list []) .sort latestFirst (.text "posts")))).run {} =
      (stepLines {} (fun _ => pure []) 1 (Transform.toStep
        (Transform.chainForm (.list []) .sort latestFirst (.text "posts")))).run {} := by
  have hparams : (latestFirst.map (·.1)).Sublist Operation.sort.flatKeys := by decide
  refine ⟨hparams, ?_, (flat_transform_eq_chain {} _ hparams (.list []) (.text "posts")).2.2.1 1 {}⟩
  rfl

end Program

end FlowScript
