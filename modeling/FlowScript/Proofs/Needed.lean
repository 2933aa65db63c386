import FlowScript.Proofs.Preamble

/-!
# What programs need

Every step of a compiled document, every import of the document and every task has asked for what its
part of the program needs, however deeply the step is nested. The preamble opens the program with each of
these once, and the import statements of the helpers among them.
-/
namespace FlowScript.Program

open Construct Pass

section Steps

variable {ctx : Context} (hdepth : ctx.SearchesResolved) {need : Need}

include hdepth

theorem stageCode_asks {stage : Stage} (hneed : need ∈ operationNeeds stage.operation) (data : String) :
    Asks need (stageCode ctx stage data) := by
  have hfollows : Follows _ (stageCode ctx stage data) := stageCode_follows hdepth stage data
  unfold stageCode at hfollows ⊢
  cases hop : stage.operation with
  | filter | map | slice => simp [operationNeeds, hop] at hneed
  | sort | unique | distinct | flatten | groupBy =>
    simp only [operationNeeds, hop, List.mem_singleton] at hneed hfollows
    rw [hneed]
    exact .of_requireHelper hfollows
  | reduce =>
    simp only [operationNeeds, hop, List.mem_singleton] at hneed hfollows
    rw [hneed]
    exact .of_requireImport hfollows

theorem stagesBlock_asks {stage : Stage} {stages : List Stage} (hstage : stage ∈ stages)
    (hneed : need ∈ operationNeeds stage.operation) (output data : String) :
    Asks need (stagesBlock ctx output data stages) := by
  induction stages generalizing data with
  | nil => cases hstage
  | cons first rest ih =>
    rcases List.mem_cons.mp hstage with rfl | hstage
    · exact .first (stageCode_asks hdepth hneed data) fun _ =>
        .bind (stagesBlock_follows hdepth _ _ _) fun _ => .pure _
    · exact .later fun _ => .first (ih hstage output) fun _ => .pure _

theorem transformBlock_asks {step : Step} {transform : Transform} (hread : Transform.read? step = .ok (some transform))
    {stage : Stage} (hstage : stage ∈ transform.stages) (hneed : need ∈ operationNeeds stage.operation) :
    Asks need (transformBlock ctx step) := by
  refine .lift_later fun read hr => ?_
  obtain rfl := Except.ok.inj (hread.symm.trans hr)
  refine .later fun output => .later fun source => .later fun _ => .later fun _ => ?_
  have hne : transform.stages.isEmpty = false := List.isEmpty_eq_false_iff_exists_mem.mpr ⟨stage, hstage⟩
  simp only [hne, Bool.false_eq_true, if_false]
  exact .first (stagesBlock_asks hdepth hstage hneed output source) fun _ => .pure _

omit hdepth in
theorem importCode_asks {extension : String} {asData : Bool} (hneed : need ∈ importNeeds extension asData)
    (path code : String) : Asks need (importCode path extension code asData) := by
  unfold importNeeds at hneed
  unfold importCode
  split_ifs at hneed ⊢
  · rcases List.mem_cons.mp hneed with rfl | hneed
    · exact .first (.requireImport _) fun _ => .bind (.requireImport rfl) fun _ => .pure _
    · rw [List.mem_singleton.mp hneed]
      exact .later fun _ => .first (.requireImport _) fun _ => .pure _
  · rcases List.mem_cons.mp hneed with rfl | hneed
    · exact .first (.requireImport _) fun _ => .bind (.requireImport rfl) fun _ => .pure _
    · rw [List.mem_singleton.mp hneed]
      exact .later fun _ => .first (.requireImport _) fun _ => .pure _
  · cases hneed
  · rw [List.mem_singleton.mp hneed]
    exact .first (.requireHelper _) fun _ => .pure _
  · cases hneed
  · cases hneed

omit hdepth in
/-- A document that runs at once needs nothing. -/
theorem importNeeds_of_runsAtOnce {extension : String} {asData : Bool}
    (h : (File.documentExtensions.contains extension && !asData) = true) : importNeeds extension asData = [] := by
  rw [Bool.and_eq_true] at h
  obtain ⟨hdocument, hdata⟩ := h
  have hjson : (extension == ".json") = false := by
    rw [beq_eq_false_iff_ne]
    rintro rfl
    exact absurd hdocument (by decide)
  rw [Bool.not_eq_true'] at hdata
  simp only [importNeeds, hjson, hdocument, hdata, Bool.false_eq_true, if_false, if_true]

omit hdepth in
theorem importBlock_asks {imported : Import} {path : String}
    (hneed : need ∈ importNeeds (File.extension path) (imported.kind == some .data)) :
    Asks need (importBlock ctx imported path) := by
  refine .later fun code => .later fun name => ?_
  have hcode := importCode_asks hneed path code
  cases name with
  | some bound => exact .first hcode fun _ => .bind (.declare _) fun _ => .pure _
  | none =>
    dsimp only
    split_ifs with hrun
    · rw [importNeeds_of_runsAtOnce hrun] at hneed
      cases hneed
    · exact .first hcode fun _ => .bind (.warn _) fun _ => .pure _

omit hdepth in
theorem bindCall_asks {code : Pass String} (h : Asks need code) (call : Call) : Asks need (bindCall call code) :=
  .first h fun _ => .bind (targetName_follows _ _ _) fun _ => .bind (.declare _) fun _ => .pure _

theorem callBlock_asks {step : Step} {es : Fields} (hfields : (step.get "external_call").fields? = some es)
    (hcall : Step.isCall es = true)
    (hneed : need ∈ if (es.get "type").isTextOf "http" then [.helper .httpRequest]
      else [.statement "import subprocess"]) :
    Asks need (callBlock ctx step) := by
  refine .lift_later fun read hread => ?_
  obtain ⟨hnone, -⟩ | ⟨_, call, hes, hread, rfl⟩ := read_eq_ok hread
  · cases hnone.symm.trans hfields
  · obtain rfl := Option.some.inj (hfields.symm.trans hes)
    obtain ⟨hkind, hurl, hcommand⟩ := fields_of_call hread
    dsimp only
    rw [hkind, hurl, hcommand]
    unfold Value.isTextOf at hneed
    rw [Step.isCall, Bool.or_eq_true, Bool.and_eq_true, Bool.and_eq_true] at hcall
    rcases hcall with ⟨htype, hfilled⟩ | ⟨htype, hfilled⟩
    · simp only [htype, hfilled, Bool.and_self, if_true, List.mem_singleton] at hneed ⊢
      rw [hneed]
      exact bindCall_asks (.of_requireHelper (requestCode_follows hdepth call)) call
    · have hhttp : ((es.get "type").text? == some "http") = false := by
        rw [beq_iff_eq.mp htype]
        decide
      simp only [htype, hhttp, hfilled, Bool.false_and, Bool.and_self, Bool.false_eq_true, if_false, if_true,
        List.mem_singleton] at hneed ⊢
      rw [hneed]
      exact bindCall_asks (.of_requireImport (commandCode_follows hdepth call)) call

omit hdepth in
/-- The actions that pause are those whose keyword says so. -/
theorem keyword_of_read? {step : Step} {action : Action} (h : Action.read? step = some action) :
    step.actionKeyword? = some action.keyword := by
  obtain ⟨keyword, hkeyword, rfl⟩ := Option.map_eq_some_iff.mp h
  unfold Action.ofKeyword
  dsimp only
  split <;> rw [withResult_keyword, hkeyword]

theorem actionBlock_asks {step : Step} (hsleep : step.actionKeyword? = some "sleep") :
    Asks (.statement "import asyncio") (actionBlock ctx step) := by
  unfold actionBlock
  cases hread : Action.read? step with
  | none => simp [Action.read?, hsleep] at hread
  | some action =>
    obtain hkeyword := Option.some.inj ((keyword_of_read? hread).symm.trans hsleep)
    simp only [hkeyword, beq_self_eq_true, if_true]
    exact .of_requireImport (pause_follows hdepth _)

omit hdepth in
theorem parallelBlock_asks {nested : Flow → Pass Block} (hnested : ∀ flow, Follows (nested flow) (nested flow))
    {step : Step} {branches : List Value} (hbranches : (step.get "parallel").branches? = some branches)
    (hne : branches.isEmpty = false) : Asks (.helper .gatherAll) (parallelBlock ctx nested step) := by
  have hfollows : Follows (parallelBlock ctx nested step) (parallelBlock ctx nested step) :=
    parallelBlock_follows hnested step
  unfold parallelBlock at hfollows ⊢
  simp only [Parallel.read?, hbranches, Option.map_some, List.isEmpty_map, hne, Bool.false_eq_true, if_false]
    at hfollows ⊢
  exact .of_requireHelper hfollows

/-- The rule of a step that is not skipped asks for what the step needs. -/
theorem stepBlock_asks {nested : Flow → Pass Block} (hnested : ∀ flow, Follows (nested flow) (nested flow))
    {step : Step} (hskip : step.isSkipped = false) (hneed : need ∈ stepNeeds step) :
    Asks need (stepBlock ctx nested step) := by
  unfold stepNeeds at hneed
  unfold stepBlock
  split at hneed
  case h_1 hk =>
    split_ifs at hneed with hsleep
    · rw [hk, List.mem_singleton.mp hneed]
      exact actionBlock_asks hdepth (beq_iff_eq.mp hsleep)
    · cases hneed
  case h_2 hk =>
    rw [hk]
    cases hfields : (step.get "external_call").fields? with
    | none => simp [Step.isSkipped, hk, hfields] at hskip
    | some es =>
      simp only [Step.isSkipped, hk, hfields, Option.any_some, Bool.not_eq_false'] at hskip
      simp only [Value.field, hfields] at hneed
      exact callBlock_asks hdepth hfields hskip hneed
  case h_3 hk =>
    rw [hk]
    split at hneed
    · obtain ⟨stage, hstage, hneed⟩ := List.mem_flatMap.mp hneed
      exact transformBlock_asks hdepth ‹_› hstage hneed
    · cases hneed
  case h_4 hk =>
    rw [hk]
    cases hpath : (step.get "import").nonBlank? with
    | none => simp [hpath] at hneed
    | some path =>
      simp only [hpath, Option.elim_some] at hneed
      have hpath : (Import.ofStep step).path.nonBlank? = some path := hpath
      simp only [importStepBlock, hpath]
      exact importBlock_asks hneed
  case h_5 hk =>
    rw [hk]
    cases hbranches : (step.get "parallel").branches? with
    | none => simp [Step.isSkipped, hk, Parallel.read?, hbranches] at hskip
    | some branches =>
      simp only [hbranches, Option.any_some] at hneed
      split_ifs at hneed with hempty
      · cases hneed
      · rw [List.mem_singleton.mp hneed]
        exact parallelBlock_asks hnested hbranches (by simpa using hempty)
  case h_6 => cases hneed

end Steps

/-! ## Flows and documents -/

/-- What an import of a document needs. One that has a name and is said to be a flow is only referred
to. -/
def entryNeeds (entry : Value) : List Need :=
  match (Import.ofEntry? entry).bind fun i => i.path.text?.map fun path => (i, path) with
  | some (imported, path) =>
    if imported.kind == some .flow && (boundAs (imported.boundName.filter (· != ""))).isSome then []
    else importNeeds (File.extension path) (imported.kind == some .data)
  | none => []

/-- Whether a task writes a variable to a file. -/
def writesOutput (output : Value) : Bool :=
  (output.field "filePath").isFilled && (output.field "dataName").isFilled &&
    (output.field "dataName").identifier?.isSome

/-- Whether a task may fail without stopping the others. -/
def mayFail (task : Value) : Bool :=
  match task.field "continueOnError" with
  | .bool true => true
  | _ => false

/-- What a task needs besides its steps. -/
def taskNeeds (task : Value) : List Need :=
  if task.taskFlow?.isNone then []
  else (if mayFail task then [.helper .logger] else []) ++
    if writesOutput (task.field "output") then [.helper .writeOutput] else []

/-- The level of indentation at which the flow of a task starts. -/
def taskLevel (task : Value) : Int := if mayFail task then 2 else 1

section Documents

variable {ctx : Context} {lookup : List Char → List Char} (hdepth : ctx.SearchesResolved)

include hdepth

theorem entryOfFlow_follows {nested nested' : Flow → Pass Block}
    (hnested : ∀ flow, Follows (nested flow) (nested' flow)) (entry : Value) :
    Follows (entryOfFlow ctx nested entry) (entryOfFlow (ctx.lookingUp lookup) nested' entry) := by
  unfold entryOfFlow
  split
  · rename_i step hstep
    intro s b s' h
    obtain ⟨_, t, hhand, hrun⟩ := runs_bind.mp h
    have hhanded := hhand
    obtain rfl := runs_modify.mp hhanded
    obtain ⟨hgathers, hsame⟩ := stepBlock_follows hdepth hnested step hrun
    refine ⟨⟨hgathers.kept, hgathers.sound, fun x hx => hgathers.hands (List.mem_append_left _ hx), fun x hx => ?_⟩,
      fun hnot => runs_bind.mpr ⟨_, _, hhand, hsame hnot⟩⟩
    -- The step that was handed over last has asked for what it needs when its rule is done.
    rcases hgathers.handed x hx with hx | hx
    · rcases List.mem_append.mp hx with hx | hx
      · exact .inl hx
      · obtain rfl := List.mem_singleton.mp hx
        cases hskip : x.isSkipped with
        | true => exact .inr (.inl rfl)
        | false =>
          exact .inr (.inr fun need hneed =>
            stepBlock_asks hdepth (fun flow => (hnested flow).self) hskip hneed hrun)
    · exact .inr hx
  · exact skip_follows _ _

theorem flowBlock_follows (levels : Nat) (flow : Flow) :
    Follows (flowBlock ctx levels flow) (flowBlock (ctx.lookingUp lookup) levels flow) := by
  induction levels generalizing flow with
  | zero => exact .bind (.lift _) fun _ => .bind (.warn _) fun _ => .pure _
  | succ levels ih => exact .each fun entry _ => entryOfFlow_follows hdepth ih entry

theorem flowAt_follows (level : Int) (flow : Flow) :
    Follows (flowAt ctx level flow) (flowAt (ctx.lookingUp lookup) level flow) :=
  .bind (.lift _) fun levels => flowBlock_follows hdepth levels flow

theorem outputBlock_follows (output : Value) :
    Follows (outputBlock ctx output) (outputBlock (ctx.lookingUp lookup) output) := by
  refine .ite (.pure _) (.ite (.bind (.warn _) fun _ => .pure _) ?_)
  dsimp only
  split
  · exact .bind (.lift _) fun _ => .bind (.warn _) fun _ => .pure _
  · exact .bind (.requireHelper _) fun _ => .bind (valueCode_follows hdepth _) fun _ => .pure _

omit hdepth in
theorem taskFlowBlock_eq (task : Value) (name : String) (flow : Flow) :
    taskFlowBlock ctx task name flow = if mayFail task then (do
        requireHelper .logger
        let body ← flowAt ctx (taskLevel task) flow
        return isolated name body)
      else flowAt ctx (taskLevel task) flow := by
  unfold taskLevel mayFail taskFlowBlock
  generalize task.field "continueOnError" = choice
  cases choice with
  | bool b => cases b <;> rfl
  | _ => rfl

theorem taskFlowBlock_follows (task : Value) (name : String) (flow : Flow) :
    Follows (taskFlowBlock ctx task name flow) (taskFlowBlock (ctx.lookingUp lookup) task name flow) := by
  rw [taskFlowBlock_eq, taskFlowBlock_eq]
  exact .ite (.bind (.requireHelper _) fun _ => .bind (flowAt_follows hdepth _ _) fun _ => .pure _)
    (flowAt_follows hdepth _ _)

theorem taskBlock_follows (total : Nat) (numbered : Value × Nat) :
    Follows (taskBlock ctx total numbered) (taskBlock (ctx.lookingUp lookup) total numbered) := by
  unfold taskBlock
  dsimp only
  split
  · exact .bind (.warn _) fun _ => .pure _
  · exact .bind (taskFlowBlock_follows hdepth _ _ _) fun _ => .bind (outputBlock_follows hdepth _) fun _ => .pure _

theorem documentImports_follows (entries : Value) :
    Follows (documentImports ctx entries) (documentImports (ctx.lookingUp lookup) entries) :=
  .each fun entry _ => documentImport_follows hdepth entry

theorem prologue_follows (document : Fields) :
    Follows (prologue ctx document) (prologue (ctx.lookingUp lookup) document) :=
  .bind (documentImports_follows hdepth _) fun _ => .bind (bindingsBlock_follows hdepth _) fun _ => .pure _

theorem documentBlock_follows (document : Fields) :
    Follows (documentBlock ctx document) (documentBlock (ctx.lookingUp lookup) document) :=
  .bind (prologue_follows hdepth document) fun _ => .bind (.each fun numbered _ => taskBlock_follows hdepth _ numbered)
    fun _ => .pure _

variable {need : Need}

omit hdepth in
theorem documentImport_asks {entry : Value} (hneed : need ∈ entryNeeds entry) :
    Asks need (documentImport ctx entry) := by
  unfold entryNeeds at hneed
  unfold documentImport
  cases hentry : (Import.ofEntry? entry).bind fun i => i.path.text?.map fun path => (i, path) with
  | none =>
    rw [hentry] at hneed
    cases hneed
  | some found =>
    obtain ⟨imported, path⟩ := found
    rw [hentry] at hneed
    dsimp only at hneed ⊢
    split_ifs at hneed with hdeferred
    · cases hneed
    · unfold entryBlock
      split_ifs with hflow
      · intro s b s' h
        obtain ⟨name, t, hname, h⟩ := runs_bind.mp h
        obtain ⟨rfl, -⟩ := importName_spec hname
        cases hbound : boundAs (imported.boundName.filter (· != "")) with
        | some bound => simp [hflow, hbound] at hdeferred
        | none =>
          rw [hbound] at h
          exact importBlock_asks hneed h
      · exact importBlock_asks hneed

theorem outputBlock_asks {output : Value} (h : writesOutput output = true) :
    Asks (.helper .writeOutput) (outputBlock ctx output) := by
  have hfollows : Follows (outputBlock ctx output) (outputBlock ctx output) := outputBlock_follows hdepth output
  rw [writesOutput, Bool.and_eq_true, Bool.and_eq_true] at h
  obtain ⟨⟨hpath, hdata⟩, hname⟩ := h
  obtain ⟨name, hname⟩ := Option.isSome_iff_exists.mp hname
  have hnull : output.isNull = false := by
    cases output <;> first | rfl | simp [Value.field, Value.fields?, Value.isFilled] at hpath
  unfold outputBlock at hfollows ⊢
  simp only [hnull, hpath, hdata, hname, Bool.and_self, Bool.not_true, Bool.false_eq_true, if_false] at hfollows ⊢
  exact .of_requireHelper hfollows

theorem taskBlock_asks {total : Nat} {numbered : Value × Nat} (hneed : need ∈ taskNeeds numbered.1) :
    Asks need (taskBlock ctx total numbered) := by
  unfold taskNeeds at hneed
  unfold taskBlock
  cases hflow : numbered.1.taskFlow? with
  | none => simp [hflow] at hneed
  | some flow =>
    simp only [hflow, Option.isNone_some, Bool.false_eq_true, if_false, List.mem_append] at hneed
    rcases hneed with hneed | hneed
    · refine .first ?_ fun _ => .bind (outputBlock_follows hdepth _) fun _ => .pure _
      rw [taskFlowBlock_eq]
      split_ifs at hneed ⊢
      · rw [List.mem_singleton.mp hneed]
        exact .first (.requireHelper _) fun _ => .bind (flowAt_follows hdepth _ _) fun _ => .pure _
      · cases hneed
    · split_ifs at hneed with houtput
      · rw [List.mem_singleton.mp hneed]
        exact .later fun _ => .first (outputBlock_asks hdepth houtput) fun _ => .pure _
      · cases hneed

theorem documentBlock_asks_entry {document : Fields} {entry : Value} (hentry : entry ∈ (document.get "import").items)
    (hneed : need ∈ entryNeeds entry) : Asks need (documentBlock ctx document) := by
  have himports : Asks need (documentImports ctx (document.get "import")) :=
    .each hentry (documentImport_asks hneed) fun entry => documentImport_follows hdepth entry
  refine .first (.first himports fun _ => .bind (bindingsBlock_follows hdepth _) fun _ => .pure _) fun _ => ?_
  exact .bind (.each fun numbered _ => taskBlock_follows hdepth _ numbered) fun _ => .pure _

/-- The pass over a document compiles each of its tasks, and only gathers after it. -/
theorem exists_run_of_task {document : Fields} {task : Value} (htask : task ∈ (document.get "tasks").items)
    {s s' : State} {b : Block} (h : (documentBlock ctx document).Runs s b s') :
    ∃ total i t c t', (taskBlock ctx total (task, i)).Runs t c t' ∧ t'.Gathers s' := by
  obtain ⟨i, hi, rfl⟩ := List.mem_iff_getElem.mp htask
  have hmem : ((document.get "tasks").items[i], i) ∈ (document.get "tasks").items.zipIdx :=
    List.mem_iff_getElem.mpr ⟨i, by simpa using hi, by simp⟩
  simp only [documentBlock, runs_bind, runs_pure] at h
  obtain ⟨_, _, -, _, _, hbody, -, rfl⟩ := h
  exact ⟨_, _, exists_run_of_each (fun numbered => taskBlock_follows hdepth _ numbered) hmem hbody⟩

theorem documentBlock_asks_task {document : Fields} {task : Value} (htask : task ∈ (document.get "tasks").items)
    (hneed : need ∈ taskNeeds task) : Asks need (documentBlock ctx document) := by
  intro s b s' h
  obtain ⟨_, _, _, _, _, hrun, hgathers⟩ := exists_run_of_task hdepth htask h
  exact hgathers.kept need (taskBlock_asks hdepth hneed hrun)

/-- The steps of a task were all given to their rules, as far as the pass goes into its flow. -/
theorem steps_subset_handed {document : Fields} {task : Value} (htask : task ∈ (document.get "tasks").items)
    {flow : Flow} (hflow : task.taskFlow? = some flow) {s s' : State} {b : Block}
    (h : (documentBlock ctx document).Runs s b s') :
    ∃ levels, levelsFrom ctx.settings (taskLevel task) = .ok levels ∧
      flow.steps (fun step => !step.isSkipped) levels ⊆ s'.handed := by
  obtain ⟨_, _, _, _, _, hrun, hgathers⟩ := exists_run_of_task hdepth htask h
  simp only [taskBlock, hflow, runs_bind, runs_pure, taskFlowBlock_eq] at hrun
  obtain ⟨_, u, hbody, _, _, houtput, -, rfl⟩ := hrun
  have houtputs : Follows (outputBlock ctx (task.field "output")) (outputBlock ctx (task.field "output")) :=
    outputBlock_follows hdepth _
  have hrest : u.Gathers s' := (houtputs houtput).1.trans hgathers
  have hflowAt : ∃ t c, (flowAt ctx (taskLevel task) flow).Runs t c u := by
    split_ifs at hbody
    · simp only [runs_bind, runs_pure] at hbody
      obtain ⟨_, t, -, body, _, hbody, -, rfl⟩ := hbody
      exact ⟨t, body, hbody⟩
    · exact ⟨_, _, hbody⟩
  obtain ⟨t, c, hflowAt⟩ := hflowAt
  simp only [flowAt, runs_bind, runs_lift] at hflowAt
  obtain ⟨levels, _, ⟨hlevels, rfl⟩, hflowBlock⟩ := hflowAt
  refine ⟨levels, hlevels, fun step hstep => hrest.hands ?_⟩
  rw [(flowBlock_records hflowBlock).handed]
  exact List.mem_append_right _ hstep

end Documents

/-- After the pass over a document its needs hold what every step that it came to and did not skip needs,
however deep the step lies, what the imports and the tasks of the document need, and the module that reads the
environment if the program depends on how the environment is read. These needs have a preamble, and a program with
these needs holds one preamble between what it says of itself and its body. In it stands each of the needs once, the
imports of the helpers included, and nothing else. -/
theorem needs_complete {ctx : Context} {document : Fields} {b : Block} {s' : State}
    (hdepth : ∀ levels, ctx.settings.maxResolveDepth.most = .ok levels → levels ≤ 50)
    (h : (documentBlock ctx document).Runs {} b s') :
    (∀ task ∈ (document.get "tasks").items, ∀ flow, task.taskFlow? = some flow →
      ∃ levels, levelsFrom ctx.settings (taskLevel task) = .ok levels ∧
        ∀ step ∈ flow.steps (fun step => !step.isSkipped) levels, step.isSkipped = false →
          ∀ need ∈ stepNeeds step, s'.needs.Has need) ∧
    (∀ entry ∈ (document.get "import").items, ∀ need ∈ entryNeeds entry, s'.needs.Has need) ∧
    (∀ task ∈ (document.get "tasks").items, ∀ need ∈ taskNeeds task, s'.needs.Has need) ∧
    (∀ lookup, ¬ (documentBlock (ctx.lookingUp lookup) document).Runs {} b s' →
      s'.needs.Has environmentModule) ∧
    (∀ extra outside, (∀ s ∈ extra, checkStatement s = .ok ()) →
      ∃ groups sources, s'.needs.preamble extra outside = .ok (preambleText groups sources) ∧
        s'.needs.OpenedBy extra groups sources) ∧
    ∀ (script : Script) template code, script.needs = s'.needs → script.render template = .ok code →
      ∃ extra groups sources, script.RenderedWith (preambleText groups sources) template extra code ∧
        s'.needs.OpenedBy extra groups sources := by
  have hsearch : ctx.SearchesResolved := hdepth
  have hfollows : Follows (documentBlock ctx document) (documentBlock ctx document) :=
    documentBlock_follows hsearch document
  have hgathers := (hfollows h).1
  refine ⟨fun task htask flow hflow => ?_, fun entry hentry need hneed => ?_, fun task htask need hneed => ?_,
    fun lookup hnot => ?_, fun extra outside hextra => ?_, fun script template code hneeds hcode => ?_⟩
  · obtain ⟨levels, hlevels, hsteps⟩ := steps_subset_handed hsearch htask hflow h
    refine ⟨levels, hlevels, fun step hstep hskip => ?_⟩
    obtain hbefore | hskipped | hall := hgathers.handed step (hsteps hstep)
    · cases hbefore
    · cases hskip.symm.trans hskipped
    · exact hall
  · exact documentBlock_asks_entry hsearch hentry hneed h
  · exact documentBlock_asks_task hsearch htask hneed h
  · by_contra hneeds
    exact hnot ((documentBlock_follows hsearch document h).2 hneeds)
  · have hsound : ∀ need, s'.needs.Has need → need.isSound := by
      intro need hneed
      obtain hbefore | hsound := hgathers.sound need hneed
      · cases need <;> cases hbefore
      · exact hsound
    obtain ⟨text, htext⟩ := exists_preamble outside hsound hextra
    obtain ⟨groups, sources, rfl, hopened⟩ := openedBy_of_preamble htext
    exact ⟨groups, sources, htext, hopened⟩
  · obtain ⟨extra, outside, text, htext, hrendered⟩ := Script.exists_renderedWith hcode
    rw [hneeds] at htext
    obtain ⟨groups, sources, rfl, hopened⟩ := openedBy_of_preamble htext
    exact ⟨extra, groups, sources, hrendered, hopened⟩

def pauseStep : Step := [(.text "sleep", .int 5)]

def requestStep : Step :=
  [(.text "external_call", .map [(.text "type", .text "http"), (.text "url", .text "$\x7bENV.URL\x7d")])]

def groupStep : Step :=
  [(.text "parallel", .map [(.text "tasks", .list [.list [.map pauseStep, .map requestStep]])])]

def sortStep : Step :=
  [(.text "data_transform", .map [(.text "source", .text "prices"), (.text "operation", .text "sort")])]

/-- An import of data, and a task that may fail and writes a file. One branch of its group reads a URL from
the environment. -/
def busyDocument : Fields :=
  [(.text "import", .list [.map [(.text "data", .text "prices.yaml"), (.text "as", .text "prices")]]),
   (.text "tasks", .list [.map [(.text "continueOnError", .bool true),
      (.text "output", .map [(.text "filePath", .text "out.json"), (.text "dataName", .text "prices")]),
      (.text "flow", .list [.map groupStep, .map sortStep])]])]

/-- A program with the given needs and an empty body. -/
def scriptNeeding (needs : Needs) : Script :=
  { body := [], needs, agent := {}, platform := {}, factory := .null, source := "busy.yaml" }

theorem busyDocument_needs_complete :
    ∃ b s', (documentBlock {} busyDocument).Runs {} b s' ∧
      (∀ step ∈ [groupStep, pauseStep, requestStep, sortStep], ∀ need ∈ stepNeeds step, s'.needs.Has need) ∧
      (∀ need ∈ [Need.statement "import yaml", .helper .logger, .helper .writeOutput], s'.needs.Has need) ∧
      s'.needs.Has environmentModule ∧
      ∃ code groups sources, (scriptNeeding s'.needs).render .module = .ok code ∧
        code = (scriptNeeding s'.needs).laidOut "flow" (preambleText groups sources) "" ∧
        groups.flatten.count "import yaml" = 1 ∧ sources.count Helper.writeOutput.source = 1 := by
  have hdiffers : ((documentBlock {} busyDocument).run {}).toOption.map (fun r => r.1.lines (Margin.copies "") 0) ≠
      ((documentBlock (Context.lookingUp {} fun _ => []) busyDocument).run {}).toOption.map
        fun r => r.1.lines (Margin.copies "") 0 := by decide +kernel
  cases hrun : (documentBlock {} busyDocument).run {} with
  | error e =>
    have hok : ((documentBlock {} busyDocument).run {}).toOption.isSome = true := by decide +kernel
    simp [hrun, Except.toOption] at hok
  | ok r =>
    obtain ⟨b, s'⟩ := r
    have hdepth : ∀ levels, Limit.most (Settings.maxResolveDepth {}) = .ok levels → levels ≤ 50 := by
      rintro _ ⟨⟩
      decide
    obtain ⟨hsteps, hentries, htasks, hlookup, hpreamble, hprogram⟩ := needs_complete hdepth hrun
    obtain ⟨_, _, htext, -⟩ := hpreamble [] thirdParty (by simp)
    obtain ⟨code, hrender⟩ : ∃ code, (scriptNeeding s'.needs).render .module = .ok code := by
      rw [Script.render, show (scriptNeeding s'.needs).needs = s'.needs from rfl, htext]
      exact ⟨_, rfl⟩
    obtain ⟨_, groups, sources, hrendered, hopened⟩ := hprogram _ _ _ rfl hrender
    have hyaml : s'.needs.Has (.statement "import yaml") := hentries _ (List.mem_singleton_self _) _ List.mem_cons_self
    have hwrite : s'.needs.Has (.helper .writeOutput) :=
      htasks _ (List.mem_singleton_self _) _ (List.mem_cons_of_mem _ List.mem_cons_self)
    refine ⟨b, s', hrun, ?_, ?_, ?_, _, groups, sources, hrender, ?_, hopened.statements _ (.inl hyaml),
      hopened.helpers _ hwrite⟩
    · obtain ⟨levels, hlevels, hneeds⟩ := hsteps _ (List.mem_singleton_self _) _ rfl
      obtain rfl : 49 = levels := Except.ok.inj hlevels
      intro step hstep
      refine hneeds step hstep ?_
      revert step
      decide +kernel
    · intro need hneed
      simp only [List.mem_cons, List.not_mem_nil, or_false] at hneed
      rcases hneed with rfl | rfl | rfl
      · exact hyaml
      · exact htasks _ (List.mem_singleton_self _) _ List.mem_cons_self
      · exact hwrite
    · refine hlookup (fun _ => []) fun hother => hdiffers ?_
      rw [hrun, show (documentBlock _ busyDocument).run {} = .ok (b, s') from hother]
    · cases hrendered
      rfl

end FlowScript.Program
