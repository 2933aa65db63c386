import FlowScript.Proofs.Warnings

/-!
# Steps without flows

Variables, imports, transforms, calls, sub-flows and actions own no flow. What they add to a block is
plain: assignments, evaluations and comments. The names they assign are the names they bring into
scope.
-/
namespace FlowScript.Program

open Construct Pass

/-! ## Quiet passes -/

namespace Pass

theorem valueCode_quiet (ctx : Context) (v : Value) : Quiet (valueCode ctx v) :=
  (valueCode_noting ctx v).quiet

theorem collectionCode_quiet (ctx : Context) (v : Value) : Quiet (collectionCode ctx v) :=
  (collectionCode_noting ctx v).quiet

theorem countCode_quiet (ctx : Context) (v : Value) : Quiet (countCode ctx v) :=
  (countCode_noting ctx v).quiet

theorem paramsCode_quiet (ctx : Context) (v : Value) : Quiet (paramsCode ctx v) :=
  (paramsCode_noting ctx v).quiet

theorem importCode_quiet (path extension code : String) (asData : Bool) :
    Quiet (importCode path extension code asData) := (importCode_noting path extension code asData).quiet

theorem requestCode_quiet (ctx : Context) (call : Call) : Quiet (requestCode ctx call) :=
  (requestCode_noting ctx call).quiet

theorem commandCode_quiet (ctx : Context) (call : Call) : Quiet (commandCode ctx call) :=
  (commandCode_noting ctx call).quiet

theorem stageCode_quiet (ctx : Context) (stage : Stage) (data : String) :
    Quiet (stageCode ctx stage data) := (stageCode_noting ctx stage data).quiet

theorem sourceCode_quiet (ctx : Context) (source : Value) (output : String) :
    Quiet (sourceCode ctx source output) := (sourceCode_noting ctx source output).quiet

theorem arguments_quiet (ctx : Context) (invocation : Invocation) : Quiet (arguments ctx invocation) :=
  (arguments_noting ctx invocation).quiet

end Pass

/-! ## Blocks -/

variable {ctx : Context} {s s' : State} {b : Block}

/-- An entry of a mapping of variables is bound if its key is a name, and is a comment otherwise. -/
theorem bindingBlock_spec {entry : Value × Value} (h : (bindingBlock ctx entry).Runs s b s') :
    (∃ name code, entry.1.identifier? = some name ∧ b = [.line (.assign name code)] ∧
      s.Binds [name] s') ∨
    (∃ text, entry.1.identifier? = none ∧ b = [.comment text] ∧ s.Binds [] s') := by
  unfold bindingBlock at h
  cases hv : entry.1.identifier? with
  | some name =>
    simp only [hv, runs_bind, runs_pure] at h
    obtain ⟨_, _, hd, code, _, hc, rfl, rfl⟩ := h
    exact .inl ⟨name, code, rfl, rfl, (binds_of_declare hd).trans (valueCode_quiet _ _ hc)⟩
  | none =>
    simp only [hv, runs_bind, runs_pure] at h
    obtain ⟨spelled, _, hl, _, _, hw, rfl, rfl⟩ := h
    exact .inr ⟨_, rfl, rfl, (Quiet.lift _ hl).trans (Quiet.warn _ hw)⟩

/-- A mapping of variables binds its keys that are names. -/
theorem bindingsBlock_binds {bindings : Fields} (h : (bindingsBlock ctx bindings).Runs s b s') :
    s.Binds (bindings.filterMap (·.1.identifier?)) s' := by
  unfold bindingsBlock at h
  induction bindings generalizing s b with
  | nil =>
    obtain ⟨-, rfl⟩ := runs_each_nil.mp h
    exact .refl _
  | cons entry rest ih =>
    obtain ⟨first, t, others, hfirst, hrest, -⟩ := runs_each_cons.mp h
    obtain ⟨name, code, hname, -, hb⟩ | ⟨text, hname, -, hb⟩ := bindingBlock_spec hfirst
    · simpa [hname] using hb.trans (ih hrest)
    · simpa [hname] using hb.trans (ih hrest)

/-- The text of the expression that an import is bound to. -/
def importExpression (extension code : String) (asData : Bool) : String :=
  if extension == ".json" then "json.loads(Path(" ++ code ++ ").read_text(encoding='utf-8'))"
  else if File.documentExtensions.contains extension then
    if asData then "yaml.safe_load(Path(" ++ code ++ ").read_text(encoding='utf-8'))" else code
  else if extension == ".py" then "_load_module(" ++ code ++ ")"
  else code

theorem importCode_eq {path extension code e : String} {asData : Bool}
    (h : (importCode path extension code asData).Runs s e s') :
    e = importExpression extension code asData := by
  unfold importCode jsonLoadCode yamlLoadCode at h
  unfold importExpression
  split_ifs at h ⊢
  all_goals
    simp only [runs_bind, runs_pure] at h
    grind

/-- The name that an import is bound to, if it can be written. -/
def boundAs (given : Option String) : Option String := given.filter isIdentifier

theorem importName_spec {given name : Option String} (h : (importName given).Runs s name s') :
    name = boundAs given ∧ s.Binds [] s' := by
  unfold importName at h
  cases given with
  | none =>
    obtain ⟨rfl, rfl⟩ := runs_pure.mp h
    exact ⟨rfl, .refl _⟩
  | some g =>
    simp only [runs_bind, runs_pure] at h
    obtain ⟨found, _, ht, rfl, rfl⟩ := h
    obtain ⟨rfl, hb⟩ := targetName_spec ht
    refine ⟨?_, hb⟩
    unfold nameOr boundAs Value.identifier?
    by_cases hg : isIdentifier g = true
    · simp [hg, ne_empty_of_isIdentifier hg, Option.filter]
    · simp [hg, Option.filter]

theorem call_awaits (agent : Agent) (method : String) (arguments : List String) :
    ∃ rest, agent.call method arguments = "await " ++ rest := by
  simp only [Agent.call, String.append_assoc]
  exact ⟨_, rfl⟩

theorem runFlow_awaits (agent : Agent) (reference : String) (params : Option String) :
    ∃ rest, [Item.line (.evaluate (agent.runFlow reference params))] =
      [.line (.evaluate ("await " ++ rest))] := by
  obtain ⟨rest, h⟩ := call_awaits agent agent.runFlowMethod (reference :: params.toList)
  exact ⟨rest, by rw [Agent.runFlow, h]⟩

/-- Whether an import without a name runs a sub-flow at once. -/
def runsAtOnce (imported : Import) (path : String) : Bool :=
  File.documentExtensions.contains (File.extension path) && !(imported.kind == some .data)

/-- An import assigns to its name. Without one it runs a sub-flow or evaluates what it would be bound
to. -/
theorem importBlock_spec {imported : Import} {path : String}
    (h : (importBlock ctx imported path).Runs s b s') :
    (∃ name code, boundAs imported.boundName = some name ∧ b = [.line (.assign name code)] ∧
      s.Binds [name] s') ∨
    (boundAs imported.boundName = none ∧ s.Binds [] s' ∧
      ((runsAtOnce imported path = true ∧ ∃ rest, b = [.line (.evaluate ("await " ++ rest))]) ∨
       (runsAtOnce imported path = false ∧ ∃ n, ctx.settings.maxResolveDepth.most = .ok n ∧
         b = [.line (.evaluate (importExpression (File.extension path)
           (Literal.code n (.text path) ctx.agent.lookup) (imported.kind == some .data)))]))) := by
  simp only [importBlock, runs_bind] at h
  obtain ⟨code, _, hv, name, _, hn, h⟩ := h
  obtain ⟨rfl, hname⟩ := importName_spec hn
  have before := (valueCode_quiet _ _ hv).trans hname
  cases hb : boundAs imported.boundName with
  | some bound =>
    simp only [hb, runs_bind, runs_pure] at h
    obtain ⟨e, _, hc, _, _, hd, rfl, rfl⟩ := h
    exact .inl ⟨bound, e, rfl, rfl,
      (before.trans (importCode_quiet _ _ _ _ hc)).trans (binds_of_declare hd)⟩
  | none =>
    refine .inr ⟨rfl, ?_⟩
    simp only [hb] at h
    change (if runsAtOnce imported path = true then _ else _ : Pass Block).Runs _ _ _ at h
    split_ifs at h with hrun
    · simp only [runs_bind, runs_pure] at h
      obtain ⟨params, _, hp, rfl, rfl⟩ := h
      exact ⟨before.trans (paramsCode_quiet _ _ hp), .inl ⟨hrun, runFlow_awaits _ _ _⟩⟩
    · simp only [runs_bind, runs_pure] at h
      obtain ⟨e, _, hc, _, _, hw, rfl, rfl⟩ := h
      obtain ⟨n, hn, rfl⟩ := valueCode_eq hv
      refine ⟨(before.trans (importCode_quiet _ _ _ _ hc)).trans (Quiet.warn _ hw), .inr ?_⟩
      exact ⟨by simpa using hrun, n, hn, by rw [importCode_eq hc]⟩

theorem importBlock_binds {imported : Import} {path : String}
    (h : (importBlock ctx imported path).Runs s b s') : s.Binds (boundAs imported.boundName).toList s' := by
  obtain ⟨name, -, hname, -, hb⟩ | ⟨hname, hb, -⟩ := importBlock_spec h
  · rw [hname]
    exact hb
  · rw [hname]
    exact hb

/-- Every stage of a transform assigns to its output. -/
theorem stagesBlock_spec {output data : String} {stages : List Stage}
    (h : (stagesBlock ctx output data stages).Runs s b s') :
    (∃ codes : List String, codes.length = stages.length ∧
      b = codes.map fun code => .line (.assign output code)) ∧ s.Binds [] s' := by
  induction stages generalizing s b data with
  | nil =>
    obtain ⟨rfl, rfl⟩ := runs_pure.mp h
    exact ⟨⟨[], rfl, rfl⟩, .refl _⟩
  | cons stage rest ih =>
    simp only [stagesBlock, runs_bind, runs_pure] at h
    obtain ⟨code, _, hc, others, _, ho, rfl, rfl⟩ := h
    obtain ⟨⟨codes, hl, rfl⟩, hb⟩ := ih ho
    exact ⟨⟨code :: codes, by simp [hl], rfl⟩, (stageCode_quiet _ _ _ hc).trans hb⟩

theorem unknownOperations_spec {entries : List Value} (h : (each unknownOperation entries).Runs s b s') :
    (∃ texts : List String, b = texts.map .comment) ∧ s.Binds [] s' := by
  induction entries generalizing s b with
  | nil =>
    obtain ⟨rfl, rfl⟩ := runs_each_nil.mp h
    exact ⟨⟨[], rfl⟩, .refl _⟩
  | cons entry rest ih =>
    obtain ⟨first, t, others, hf, hr, rfl⟩ := runs_each_cons.mp h
    simp only [unknownOperation, runs_bind, runs_pure] at hf
    obtain ⟨quoted, _, hl, _, _, hw, rfl, rfl⟩ := hf
    obtain ⟨⟨texts, rfl⟩, hb⟩ := ih hr
    exact ⟨⟨_ :: texts, rfl⟩, ((Quiet.lift _ hl).trans (Quiet.warn _ hw)).trans hb⟩

/-- A transform leaves comments for what it does not know, and then assigns to its output at least
once. -/
theorem transformBlock_spec {step : Step} {transform : Transform}
    (hread : Transform.read? step = .ok (some transform))
    (h : (transformBlock ctx step).Runs s b s') :
    (∃ (texts : List String) (code : String) (codes : List String), b = texts.map .comment ++
      (code :: codes).map fun code =>
        .line (.assign (nameOr transform.output Transform.defaultOutput) code)) ∧
    s.Binds [nameOr transform.output Transform.defaultOutput] s' := by
  simp only [transformBlock, hread, runs_bind, runs_lift] at h
  obtain ⟨_, _, ⟨he, rfl⟩, h⟩ := h
  obtain rfl := Except.ok.inj he
  simp only [runs_bind] at h
  obtain ⟨output, _, ht, source, _, hs, comments, _, hc, _, _, hd, h⟩ := h
  obtain ⟨rfl, hname⟩ := targetName_spec ht
  obtain ⟨⟨texts, rfl⟩, hcomments⟩ := unknownOperations_spec hc
  have before := ((hname.trans (sourceCode_quiet _ _ _ hs)).trans hcomments).trans (binds_of_declare hd)
  split_ifs at h with hempty
  · obtain ⟨rfl, rfl⟩ := runs_pure.mp h
    exact ⟨⟨texts, _, [], rfl⟩, before⟩
  · simp only [runs_bind, runs_pure] at h
    obtain ⟨assignments, _, ha, rfl, rfl⟩ := h
    obtain ⟨⟨codes, hl, rfl⟩, hstages⟩ := stagesBlock_spec ha
    refine ⟨⟨texts, ?_⟩, before.trans hstages⟩
    cases codes with
    | nil =>
      have hnil : transform.stages = [] := List.eq_nil_of_length_eq_zero hl.symm
      exact absurd (by rw [hnil]; rfl) hempty
    | cons code codes => exact ⟨code, codes, rfl⟩

/-- A sub-flow is awaited. -/
theorem useBlock_spec {step : Step} {reference : String}
    (href : (Use.ofStep step).reference.nonBlank? = some reference)
    (h : (useBlock ctx step).Runs s b s') :
    (∃ rest, b = [.line (.evaluate ("await " ++ rest))]) ∧ s.Binds [] s' := by
  simp only [useBlock, href, runs_bind, runs_get] at h
  obtain ⟨_, _, ⟨rfl, rfl⟩, h⟩ := h
  -- Three ways to write the reference lead to one call.
  have rest (t : State) (code : String) (ht : s.Binds [] t) :
      (do let params ← paramsCode ctx (Use.ofStep step).params
          return [Item.line (.evaluate (ctx.agent.runFlow code params))] : Pass Block).Runs t b s' →
      (∃ rest, b = [.line (.evaluate ("await " ++ rest))]) ∧ s.Binds [] s' := by
    simp only [runs_bind, runs_pure]
    rintro ⟨params, _, hp, rfl, rfl⟩
    exact ⟨runFlow_awaits _ _ _, ht.trans (paramsCode_quiet _ _ hp)⟩
  split at h
  · exact rest _ _ (.refl _) h
  · split_ifs at h
    · exact rest _ _ (.refl _) h
    · obtain ⟨code, t, hc, h⟩ := runs_bind.mp h
      exact rest t code (valueCode_quiet _ _ hc) h

end FlowScript.Program
