import FlowScript.Proofs.Layout
import FlowScript.Proofs.Outline

/-!
# What stands below a header

The lines below a header have to hold a statement: a suite of comments alone is no suite. Empty suites
are filled with `pass`, but a suite is empty only if it has no line at all. So a header is left without
a statement exactly if what stands below it amounts to remarks. Which flows do can be told from the
document, and the main statement is that this is the whole condition.
-/
namespace FlowScript.Program

open Construct Pass

/-! ## Imports without a name -/

/-- Whether a path that is imported without a name says nothing when it is evaluated: it is a single
marker and not loaded, and its expression is blank or a comment. -/
def evaluatesNothing (ctx : Context) (path : String) : Bool :=
  let extension := File.extension path
  !(extension == ".json" || File.documentExtensions.contains extension || extension == ".py") &&
    (match ctx.settings.maxResolveDepth.most with
      | .ok levels => decide (0 ≤ levels)
      | .error _ => false) &&
    (Marker.single? path.toList).any fun inner =>
      !isStatement (String.ofList (Marker.expression inner ctx.agent.lookup))

def importContent (ctx : Context) (imported : Import) (path : String) : Content :=
  if (boundAs imported.boundName).isSome || runsAtOnce imported path || !evaluatesNothing ctx path then
    .code
  else .remarks

theorem isStatement_literalCode (levels : Int) (s : String) (lookup : List Char → List Char) :
    isStatement (Literal.code levels (.text s) lookup) =
      !(decide (0 ≤ levels) && (Marker.single? s.toList).any fun inner =>
        !isStatement (String.ofList (Marker.expression inner lookup))) := by
  have hquote : isStatement (Text.quote s) = true :=
    isStatement_append (isStatement_append (by decide) _) _
  have hliteral : isStatement (Text.literal s) = true := by
    have hq : Text.chooseQuote s.toList = '"' ∨ Text.chooseQuote s.toList = '\'' := by
      unfold Text.chooseQuote
      split_ifs
      · exact .inl rfl
      · exact .inr rfl
    refine isStatement_of_toList String.toList_ofList ?_ ?_ <;>
      rcases hq with hq | hq <;> rw [hq] <;> decide
  have hinterpolated : ∀ split, isStatement (String.ofList (Literal.interpolated lookup split)) = true :=
    fun split => isStatement_of_toList String.toList_ofList (by decide) (by decide)
  rw [Literal.code]
  by_cases hlevels : levels < 0
  · rw [if_pos hlevels, Value.literal, hliteral]
    simp [hlevels]
  · rw [if_neg hlevels, Literal.resolve]
    cases hsingle : Marker.single? s.toList with
    | some inner => simp [Int.not_lt.mp hlevels]
    | none =>
      dsimp only
      split_ifs
      · simp [hquote]
      · simp [hinterpolated]

theorem isStatement_importExpression {ctx : Context} {imported : Import} {path : String} {levels : Int}
    (hlevels : ctx.settings.maxResolveDepth.most = .ok levels) (hrun : runsAtOnce imported path = false) :
    isStatement (importExpression (File.extension path) (Literal.code levels (.text path) ctx.agent.lookup)
      (imported.kind == some .data)) = !evaluatesNothing ctx path := by
  unfold importExpression evaluatesNothing
  unfold runsAtOnce at hrun
  rw [hlevels]
  dsimp only
  split_ifs with hjson hdocument hdata hpy
  · rw [isStatement_append (isStatement_append (by decide) _) _]
    simp only [hjson, Bool.true_or, Bool.not_true, Bool.false_and, Bool.not_false]
  · rw [isStatement_append (isStatement_append (by decide) _) _]
    simp only [hdocument, Bool.or_true, Bool.true_or, Bool.not_true, Bool.false_and, Bool.not_false]
  · simp only [hdocument, hdata, Bool.true_and, Bool.not_eq_false'] at hrun
    exact absurd hrun Bool.false_ne_true
  · rw [isStatement_append (isStatement_append (by decide) _) _]
    simp only [hpy, Bool.or_true, Bool.not_true, Bool.false_and, Bool.not_false]
  · rw [Bool.not_eq_true] at hjson hdocument hpy
    rw [isStatement_literalCode]
    simp only [hjson, hdocument, hpy, Bool.or_self, Bool.not_false, Bool.true_and]

theorem importBlock_outline {ctx : Context} {imported : Import} {path : String} {s s' : State} {b : Block}
    (h : (importBlock ctx imported path).Runs s b s') :
    blockOutline b = ⟨importContent ctx imported path, true⟩ := by
  unfold importContent
  obtain ⟨name, code, hname, rfl, -⟩ | ⟨hname, -, ⟨hrun, rest, rfl⟩ | ⟨hrun, levels, hlevels, rfl⟩⟩ :=
    importBlock_spec h
  · have hid : isIdentifier name = true := (Option.filter_eq_some_iff.mp hname).2
    rw [blockOutline_singleton, outline_line (isStatement_assign (isStatement_of_isIdentifier hid) _),
      hname]
    rfl
  · rw [blockOutline_singleton, outline_line (isStatement_await _), hrun]
    simp
  · rw [blockOutline_singleton, Item.outline, Item.head, Statement.code, contentOf,
      isStatement_importExpression hlevels hrun, hname, hrun]
    simp

/-! ## Outlines of flows -/

/-- A flow below a header, and whether the header has a statement of its own to stand with it. -/
structure Suite where
  flow : Flow
  closed : Bool := false

/-- Whether the walk finds a name that a flow binds. -/
def bindsNames (ctx : Context) (flow : Flow) : Bool :=
  match (do flow.boundNames false (← ctx.settings.walkLevels) : Except Fault (List String)) with
  | .ok names => !names.isEmpty
  | .error _ => false

/-- The flows that a step puts below headers. A conditional loop always counts its turns, a merging
branch returns, and a branch that binds names declares them. -/
def suites (ctx : Context) (step : Step) : List Suite :=
  match step.kind with
  | .logic =>
    let logic := step.get "logic"
    ⟨(logic.field "then").items, false⟩ ::
      if (logic.field "else").isNull then [] else [⟨(logic.field "else").items, false⟩]
  | .loop => (Loop.read? step).toList.map fun loop => ⟨loop.flow, loop.kind == some "while"⟩
  | .guarded =>
    let guard := Guard.read step
    ⟨guard.body.getD [], false⟩ ::
      (guard.handler.toList ++ guard.cleanup.toList).map fun flow => ⟨flow, false⟩
  | .parallel =>
    (Parallel.read? step).elim [] fun parallel => parallel.branches.map fun branch =>
      ⟨branch.flow, parallel.merges || bindsNames ctx branch.flow⟩
  | _ => []

/-- Variables that cannot be written leave comments. -/
def bindingsOutline (bindings : Fields) : Outline :=
  .all (bindings.map fun entry => ⟨if entry.1.identifier?.isSome then .code else .remarks, true⟩)

def stepContent (ctx : Context) (step : Step) : Content :=
  match step.kind with
  | .variables => (bindingsOutline ((step.get "variables").fields?.getD [])).content
  | .importing =>
    importContent ctx (Import.ofStep step) ((Import.ofStep step).path.nonBlank?.getD "")
  | .parallel => if (Parallel.read? step).any (·.branches.isEmpty) then .remarks else .code
  | _ => .code

/-- The outline of a step whose flows have the given outlines. -/
def stepOutline (ctx : Context) (below : Flow → Outline) (step : Step) : Outline :=
  if step.isSkipped then ⟨.remarks, true⟩
  else ⟨stepContent ctx step, (suites ctx step).all fun suite => (below suite.flow).fits suite.closed⟩

/-- The outline of a flow of which the given number of levels is entered. -/
def flowOutline (ctx : Context) : Nat → Flow → Outline
  | 0, _ => ⟨.remarks, true⟩
  | levels + 1, flow => .all (flow.map fun entry =>
      entry.step?.elim ⟨.remarks, true⟩ (stepOutline ctx (flowOutline ctx levels)))

section Flows

variable {ctx : Context} {s s' : State} {b : Block}

theorem each_outline {α : Type} {f : α → Pass Block} {g : α → Outline} {entries : List α}
    (hf : ∀ a ∈ entries, ∀ s b s', (f a).Runs s b s' → blockOutline b = g a)
    (h : (each f entries).Runs s b s') : blockOutline b = .all (entries.map g) := by
  induction entries generalizing s b with
  | nil =>
    obtain ⟨rfl, rfl⟩ := runs_each_nil.mp h
    exact blockOutline_nil
  | cons a rest ih =>
    obtain ⟨first, t, others, hfirst, hrest, rfl⟩ := runs_each_cons.mp h
    rw [blockOutline_append, hf a (by simp) _ _ _ hfirst,
      ih (fun a ha => hf a (List.mem_cons_of_mem _ ha)) hrest]
    rfl

theorem bindingsBlock_outline {bindings : Fields} (h : (bindingsBlock ctx bindings).Runs s b s') :
    blockOutline b = bindingsOutline bindings := by
  refine each_outline (fun entry _ s b s' h => ?_) h
  obtain ⟨name, code, hname, rfl, -⟩ | ⟨text, hname, rfl, -⟩ := bindingBlock_spec h
  · rw [blockOutline_singleton, outline_line (isStatement_assign (isStatement_of_identifier? hname) _),
      hname]
    rfl
  · rw [blockOutline_singleton, outline_comment, hname]
    rfl

theorem bindingsOutline_owning (bindings : Fields) : (bindingsOutline bindings).owning = true := by
  unfold bindingsOutline Outline.all
  induction bindings with
  | nil => rfl
  | cons entry rest ih => simpa [Outline.join] using ih

theorem owning_of_lines {α : Type} (f : α → Statement) (xs : List α) :
    (blockOutline (xs.map fun x => .line (f x))).owning = true := by
  induction xs with
  | nil => simp
  | cons x xs ih => simpa [blockOutline_cons, Outline.join, Item.outline] using ih

/-- The branch functions of a group. -/
theorem branches_outline {nested : Flow → Pass Block} {below : Flow → Outline}
    (hnested : ∀ {flow s b s'}, (nested flow).Runs s b s' → blockOutline b = below flow)
    {merges : Bool} {group : Nat} {named : List NamedBranch}
    (h : BranchesRun nested merges group named s b s') :
    (blockOutline b).owning =
      named.all fun branch => (below branch.branch.flow).fits (merges || !branch.names.isEmpty) := by
  induction h with
  | nil => simp
  | @cons branch rest body ending others s t s' hn he hr ih =>
    have hbody := hnested hn
    have hitem : (Item.block (.branch (branchFunction group branch.index))
        (branchHeader branch.names ++ body ++ ending)).outline =
          ⟨.code, (below branch.branch.flow).fits (merges || !branch.names.isEmpty)⟩ := by
      rw [← hbody]
      unfold branchEnd at he
      have hheader : (blockOutline (branchHeader branch.names)).owning = true := by
        unfold branchHeader
        split_ifs <;> simp [Item.outline]
      cases merges with
      | true =>
        simp only [if_true, runs_bind, runs_lift, runs_pure] at he
        obtain ⟨last, _, -, rfl, -⟩ := he
        have hreturn : isStatement (Statement.returns (last.getD "None")).code = true :=
          isStatement_append (by decide) _
        rw [outline_closed _ _ _ _ (.inr (by rw [blockOutline_singleton, outline_line hreturn])) hheader
          (by rw [blockOutline_singleton, outline_line hreturn]), Bool.true_or]
      | false =>
        simp only [Bool.false_eq_true, if_false, runs_pure] at he
        obtain ⟨rfl, -⟩ := he
        cases hnames : branch.names with
        | nil =>
          have hsuite : branchHeader [] ++ body ++
              (if (body.isEmpty && ([] : List String).isEmpty) = true then [Item.line .pass] else []) =
                filled body := by
            cases body <;> simp [branchHeader, filled]
          rw [hsuite, outline_filled]
          rfl
        | cons name names =>
          have hdeclare : isStatement (Statement.nonlocals (name :: names)).code = true :=
            isStatement_append (by decide) _
          have hcode : (blockOutline (branchHeader (name :: names))).content = .code := by
            simp [branchHeader, outline_line hdeclare]
          rw [hnames] at hheader
          rw [outline_closed _ _ _ _ (.inl hcode) hheader (by simp)]
          rfl
    rw [blockOutline_cons, blockOutline_cons, hitem]
    simp [Outline.join, ih]

theorem handler_owning {nested : Flow → Pass Block} {below : Flow → Outline} {guard : Guard}
    (hnested : ∀ {flow s b s'}, (nested flow).Runs s b s' → blockOutline b = below flow)
    (h : HandlerRun nested guard s b s') :
    (blockOutline b).owning = guard.handler.toList.all fun flow => (below flow).fits false := by
  cases h with
  | handled hf hb hn => simp [hf, outline_filled, hnested hn]
  | absent hf hc => simp [hf]
  | ignored hf hc hb =>
    have hpass : (Item.line .pass).outline = ⟨.code, true⟩ := outline_line (by decide)
    simp [hf, outline_block, hpass]

theorem cleanup_owning {nested : Flow → Pass Block} {below : Flow → Outline} {guard : Guard}
    (hnested : ∀ {flow s b s'}, (nested flow).Runs s b s' → blockOutline b = below flow)
    (h : CleanupRun nested guard s b s') :
    (blockOutline b).owning = guard.cleanup.toList.all fun flow => (below flow).fits false := by
  cases h with
  | cleaned hf hn => simp [hf, outline_filled, hnested hn]
  | absent hf => simp [hf]

/-- Whether a branch declares names can be told from its flow. -/
theorem bindsNames_of_named {parallel : Parallel} {named : List NamedBranch}
    (h : nameBranches ctx parallel = .ok named) {branch : NamedBranch} (hb : branch ∈ named) :
    bindsNames ctx branch.branch.flow = !branch.names.isEmpty := by
  obtain ⟨levels, hlevels, hnames⟩ := (nameBranches_spec h).2 branch hb
  rw [bindsNames, bind_eq_ok.mpr ⟨levels, hlevels, hnames⟩]

theorem stepOutline_of_compiled {below : Flow → Outline} {step : Step} (hc : step.isSkipped = false) :
    stepOutline ctx below step =
      ⟨stepContent ctx step, (suites ctx step).all fun suite => (below suite.flow).fits suite.closed⟩ := by
  rw [stepOutline, if_neg (by simp [hc])]

/-- The outline of the block of a step, one case for each construct. -/
theorem stepRun_outline {nested : Flow → Pass Block} {below : Flow → Outline} {step : Step}
    (hnested : ∀ {flow s b s'}, (nested flow).Runs s b s' → blockOutline b = below flow)
    (h : StepRun nested ctx step s b s') : blockOutline b = stepOutline ctx below step := by
  cases h with
  | skipped hskip hs => rw [stepOutline, if_pos hskip, blockOutline_singleton, outline_comment]
  | @assignments bindings _ _ _ hk hc hb run =>
    have ho := bindingsOutline_owning bindings
    rw [stepOutline_of_compiled hc, bindingsBlock_outline run]
    simp [stepContent, suites, hk, hb, ← ho]
  | importing hk hc hp run =>
    rw [stepOutline_of_compiled hc, importBlock_outline run]
    simp [stepContent, suites, hk, hp]
  | @transform t texts code codes _ _ hk hr hc hb =>
    have htarget : isStatement (nameOr t.output Transform.defaultOutput) = true :=
      isStatement_nameOr _ (by decide)
    rw [stepOutline_of_compiled hc, blockOutline_append, List.map_cons, blockOutline_cons,
      outline_line (isStatement_assign htarget _)]
    have hlines := owning_of_lines (fun c => .assign (nameOr t.output Transform.defaultOutput) c) codes
    have hcomments : (blockOutline (texts.map .comment)).owning = true := by
      induction texts with
      | nil => simp
      | cons text texts ih => simpa [blockOutline_cons, Outline.join] using ih
    simp [stepContent, suites, hk, Outline.join, hlines, hcomments]
  | call hk hr hc hb =>
    rw [stepOutline_of_compiled hc, blockOutline_singleton,
      outline_line (isStatement_assign (isStatement_nameOr _ (by decide)) _)]
    simp [stepContent, suites, hk]
  | use hk hc hb =>
    rw [stepOutline_of_compiled hc, blockOutline_singleton, outline_line (isStatement_await _)]
    simp [stepContent, suites, hk]
  | query hk hr hc hg hb =>
    rw [stepOutline_of_compiled hc, blockOutline_singleton,
      outline_line (isStatement_assign (isStatement_nameOr _ (by decide)) _)]
    simp [stepContent, suites, hk]
  | perform hk hr hc hg hb =>
    rw [stepOutline_of_compiled hc, blockOutline_singleton, outline_line (isStatement_await _)]
    simp [stepContent, suites, hk]
  | conditional hk hc he hb hn =>
    rw [stepOutline_of_compiled hc, blockOutline_singleton, outline_filled, hnested hn]
    simp [stepContent, suites, hk, he]
  | alternative hk hc he hb hy hn =>
    rw [stepOutline_of_compiled hc, blockOutline_cons, blockOutline_singleton, outline_filled,
      outline_filled, hnested hy, hnested hn]
    simp [stepContent, suites, hk, he, Outline.join]
  | forEach hk hr hc hl hi hb hn =>
    rw [stepOutline_of_compiled hc, blockOutline_singleton, outline_filled, hnested hn]
    simp [stepContent, suites, hk, hr, hl]
  | forIndexed hk hr hc hl hi hb hn =>
    rw [stepOutline_of_compiled hc, blockOutline_singleton, outline_filled, hnested hn]
    simp [stepContent, suites, hk, hr, hl]
  | @bounded loop bound condition body _ _ _ hk hr hc hl hb hn =>
    have hcounter := isStatement_counterOf s.scope loop
    have hstart : isStatement (Statement.start (counterOf s.scope loop)).code = true :=
      isStatement_append hcounter _
    have hturn : isStatement (Statement.increment (counterOf s.scope loop)).code = true :=
      isStatement_append hcounter _
    have hlast : blockOutline [.line (.increment (counterOf s.scope loop))] = ⟨.code, true⟩ := by
      rw [blockOutline_singleton, outline_line hturn]
    have hblock := outline_closed (.bounded (counterOf s.scope loop) bound condition) [] body
      [.line (.increment (counterOf s.scope loop))] (.inr (by rw [hlast])) (by simp) (by rw [hlast])
    rw [List.nil_append] at hblock
    rw [stepOutline_of_compiled hc, blockOutline_cons, blockOutline_singleton, hblock,
      outline_line hstart, hnested hn]
    simp [stepContent, suites, hk, hr, hl, Outline.join]
  | counted hk hr hc hl hb hn =>
    rw [stepOutline_of_compiled hc, blockOutline_singleton, outline_filled, hnested hn]
    simp [stepContent, suites, hk, hr, hl]
  | guarded hk hc hb hn hh hf =>
    rw [stepOutline_of_compiled hc, blockOutline_cons, blockOutline_append, outline_filled, hnested hn]
    simp [stepContent, suites, hk, Outline.join, handler_owning hnested hh, cleanup_owning hnested hf,
      List.all_map, Function.comp_def]
  | emptyGroup hk hr hc he hb =>
    rw [stepOutline_of_compiled hc, blockOutline_singleton, outline_comment]
    simp [stepContent, suites, hk, hr, he]
  | @group parallel named functions _ s₁ _ _ _ hk hr hc he hnames ho hh hf hb =>
    have hany : parallel.branches.isEmpty = false := by simpa using he
    have houtputs : ∀ output ∈ parallel.outputs, isStatement output = true :=
      fun output => isStatement_outputs
    have hjoin := isStatement_join houtputs (named.map fun b => branchFunction s₁.groups b.index)
    have hafter (block : Block) : (blockOutline (afterHoisted block)).owning = true := by
      unfold afterHoisted
      split_ifs <;> simp
    have hsuites : (suites ctx step).all (fun suite => (below suite.flow).fits suite.closed) =
        named.all fun b => (below b.branch.flow).fits (parallel.merges || !b.names.isEmpty) := by
      simp only [suites, hk, hr, Option.elim_some, ← (nameBranches_spec hnames).1, List.all_map]
      rw [Bool.eq_iff_iff, List.all_eq_true, List.all_eq_true]
      refine forall₂_congr fun b hb => ?_
      rw [Function.comp, Function.comp, bindsNames_of_named hnames hb]
    rw [stepOutline_of_compiled hc, hsuites, ← branches_outline hnested hf, blockOutline_append,
      blockOutline_append, blockOutline_append, blockOutline_singleton, outline_line hjoin]
    simp [stepContent, hk, hr, hany, Outline.join, hafter, owning_of_lines]

theorem flowBlock_outline {levels : Nat} {flow : Flow} (h : (flowBlock ctx levels flow).Runs s b s') :
    blockOutline b = flowOutline ctx levels flow := by
  induction levels generalizing flow s b s' with
  | zero =>
    obtain ⟨⟨text, rfl⟩, -⟩ := flowBlock_zero_run h
    rw [blockOutline_singleton, outline_comment, flowOutline]
  | succ levels ih =>
    refine each_outline (fun entry _ s b s' h => ?_) h
    obtain ⟨step, hstep, hrun⟩ | ⟨hstep, ⟨text, rfl⟩, -⟩ := entry_run h
    · rw [hstep, Option.elim_some]
      exact stepRun_outline ih hrun
    · rw [hstep, Option.elim_none, blockOutline_singleton, outline_comment]

end Flows

/-! ## Outlines of documents -/

/-- The outline of an entry of the imports of a document. -/
def entryOutline (ctx : Context) (entry : Value) : Outline :=
  match (Import.ofEntry? entry).bind fun i => i.path.text?.map fun path => (i, path) with
  | some (imported, path) => ⟨importContent ctx imported path, true⟩
  | none => ⟨.remarks, true⟩

def outputContent (output : Value) : Content :=
  if !output.isNull && (output.field "filePath").isFilled && (output.field "dataName").isFilled &&
      (output.field "dataName").identifier?.isSome then .code
  else .nothing

/-- How many levels of a flow are entered that starts at a level of indentation. -/
def startLevels (ctx : Context) (level : Int) : Nat :=
  match levelsFrom ctx.settings level with
  | .ok levels => levels
  | .error _ => 0

/-- The flow of a task that may fail stands below a header of its own. -/
def taskFlowOutline (ctx : Context) (task : Value) (flow : Flow) : Outline :=
  match task.field "continueOnError" with
  | .bool true => ⟨.code, (flowOutline ctx (startLevels ctx 2) flow).fits false⟩
  | _ => flowOutline ctx (startLevels ctx 1) flow

/-- The outline of one of `total` tasks. -/
def taskOutline (ctx : Context) (total : Nat) (task : Value) : Outline :=
  .join ⟨if total ≤ 1 then .nothing else .remarks, true⟩ <|
    match task.taskFlow? with
    | none => ⟨.remarks, true⟩
    | some flow => (taskFlowOutline ctx task flow).join ⟨outputContent (task.field "output"), true⟩

def documentOutline (ctx : Context) (document : Fields) : Outline :=
  let tasks := (document.get "tasks").items
  ((Outline.all ((document.get "import").items.map (entryOutline ctx))).join
    (bindingsOutline ((document.get "variables").fields?.getD []))).join
      (.all (tasks.map (taskOutline ctx tasks.length)))

section Documents

variable {ctx : Context} {s s' : State} {b : Block}

theorem entryBlock_outline {imported : Import} {path : String}
    (h : (entryBlock ctx imported path).Runs s b s') :
    blockOutline b = ⟨importContent ctx imported path, true⟩ := by
  unfold entryBlock at h
  split_ifs at h
  · obtain ⟨name, t, hn, h⟩ := runs_bind.mp h
    obtain ⟨rfl, -⟩ := importName_spec hn
    cases hname : boundAs (imported.boundName.filter (· != "")) with
    | none =>
      simp only [hname] at h
      exact importBlock_outline h
    | some bound =>
      simp only [hname, runs_bind, runs_pure] at h
      obtain ⟨_, _, -, code, _, -, rfl, rfl⟩ := h
      obtain ⟨hfilter, hid⟩ := Option.filter_eq_some_iff.mp hname
      have hbound : boundAs imported.boundName = some bound :=
        Option.filter_eq_some_iff.mpr ⟨(Option.filter_eq_some_iff.mp hfilter).1, hid⟩
      rw [blockOutline_singleton, outline_line (isStatement_assign (isStatement_of_isIdentifier hid) _),
        importContent, hbound]
      rfl
  · exact importBlock_outline h

theorem documentImport_outline {entry : Value} (h : (documentImport ctx entry).Runs s b s') :
    blockOutline b = entryOutline ctx entry := by
  unfold documentImport at h
  split at h
  · rename_i hentry
    rw [entryOutline, hentry]
    exact entryBlock_outline h
  · rename_i hentry
    simp only [runs_bind, runs_pure] at h
    obtain ⟨quoted, _, -, _, _, -, rfl, -⟩ := h
    rw [entryOutline, hentry, blockOutline_singleton, outline_comment]

theorem prologue_outline {document : Fields} (h : (prologue ctx document).Runs s b s') :
    blockOutline b = (Outline.all ((document.get "import").items.map (entryOutline ctx))).join
      (bindingsOutline ((document.get "variables").fields?.getD [])) := by
  simp only [prologue, runs_bind, runs_pure] at h
  obtain ⟨imports, _, hi, globals, _, hg, rfl, -⟩ := h
  rw [← bindingsBlock_outline hg, ← each_outline (fun entry _ s b s' => documentImport_outline) hi,
    ← blockOutline_append]
  split_ifs with hempty
  · rw [List.isEmpty_iff.mp hempty]
  · cases hblock : imports ++ globals with
    | nil => simp [hblock] at hempty
    | cons item items =>
      -- The blank line that follows changes nothing: there is a line before it.
      have hne := content_of_cons item items
      rw [blockOutline_append, blockOutline_singleton, outline_blank]
      generalize blockOutline (item :: items) = outline at hne ⊢
      obtain ⟨content, owning⟩ := outline
      cases content
      · exact absurd rfl hne
      · simp [Outline.join, Content.join]
      · simp [Outline.join]

theorem outputBlock_outline {output : Value} (h : (outputBlock ctx output).Runs s b s') :
    blockOutline b = ⟨outputContent output, true⟩ := by
  unfold outputBlock at h
  unfold outputContent
  by_cases hnull : output.isNull = true
  · rw [if_pos hnull] at h
    obtain ⟨rfl, -⟩ := runs_pure.mp h
    simp [hnull]
  · rw [if_neg hnull] at h
    by_cases hfields : ((output.field "filePath").isFilled && (output.field "dataName").isFilled) = true
    · simp only [hfields, Bool.not_true, Bool.false_eq_true, if_false] at h
      cases hname : (output.field "dataName").identifier? with
      | none =>
        simp only [hname, runs_bind, runs_pure] at h
        obtain ⟨_, _, -, _, _, -, rfl, -⟩ := h
        simp
      | some name =>
        simp only [hname, runs_bind, runs_pure] at h
        obtain ⟨_, _, -, path, _, -, rfl, -⟩ := h
        have hwrite : isStatement (Statement.evaluate ("_write_output(" ++ path ++ ", " ++ name ++ ")")).code =
            true := by
          rw [Statement.code]
          refine isStatement_append (isStatement_append (isStatement_append (isStatement_append ?_ _) _) _) _
          decide
        rw [blockOutline_singleton, outline_line hwrite, Bool.and_assoc (!output.isNull), hfields]
        simp [hnull]
    · simp only [hfields, Bool.not_false, if_true, runs_bind, runs_pure] at h
      obtain ⟨_, _, -, rfl, -⟩ := h
      rw [Bool.not_eq_true] at hfields
      rw [Bool.and_assoc (!output.isNull), hfields]
      simp

theorem flowAt_outline {level : Int} {flow : Flow} (h : (flowAt ctx level flow).Runs s b s') :
    blockOutline b = flowOutline ctx (startLevels ctx level) flow := by
  simp only [flowAt, runs_bind, runs_lift] at h
  obtain ⟨levels, _, ⟨hl, rfl⟩, hbody⟩ := h
  rw [startLevels, hl, flowBlock_outline hbody]

theorem taskFlowBlock_outline {task : Value} {name : String} {flow : Flow}
    (h : (taskFlowBlock ctx task name flow).Runs s b s') :
    blockOutline b = taskFlowOutline ctx task flow := by
  unfold taskFlowBlock at h
  split at h
  · rename_i htask
    simp only [runs_bind, runs_pure] at h
    obtain ⟨_, _, -, body, _, hbody, rfl, -⟩ := h
    have hwarn : isStatement (Statement.evaluate ("logger.warning(\"Task %s failed: %s\", " ++
        Text.quote name ++ ", _task_error)")).code = true := by
      rw [Statement.code]
      exact isStatement_append (isStatement_append (by decide) _) _
    have hhandler (header : Header) : (Item.block header [.line (.evaluate
        ("logger.warning(\"Task %s failed: %s\", " ++ Text.quote name ++ ", _task_error)"))]).outline =
          ⟨.code, true⟩ := by
      rw [outline_block, blockOutline_singleton, outline_line hwarn]
      rfl
    rw [taskFlowOutline, htask, ← flowAt_outline hbody, isolated, blockOutline_cons, outline_filled,
      blockOutline_singleton, hhandler]
    simp [Outline.join]
  · rename_i htask
    unfold taskFlowOutline
    split
    · rename_i hother
      exact absurd hother htask
    · exact flowAt_outline h

theorem taskTitle_outline (name : String) (i total : Nat) :
    blockOutline (taskTitle name i total) = ⟨if total ≤ 1 then .nothing else .remarks, true⟩ := by
  unfold taskTitle
  split_ifs <;> simp [blockOutline_cons, Outline.join, Content.join]

theorem taskBlock_outline {total : Nat} {numbered : Value × Nat}
    (h : (taskBlock ctx total numbered).Runs s b s') :
    blockOutline b = taskOutline ctx total numbered.1 := by
  simp only [taskBlock] at h
  unfold taskOutline
  cases hflow : numbered.1.taskFlow? with
  | none =>
    simp only [hflow, runs_bind, runs_pure] at h
    obtain ⟨_, _, -, rfl, -⟩ := h
    rw [blockOutline_append, taskTitle_outline, blockOutline_singleton, outline_comment]
  | some flow =>
    simp only [hflow, runs_bind, runs_pure] at h
    obtain ⟨body, _, hbody, output, _, houtput, rfl, -⟩ := h
    rw [blockOutline_append, blockOutline_append, taskTitle_outline, taskFlowBlock_outline hbody,
      outputBlock_outline houtput, Outline.join_assoc]

theorem documentBlock_outline {document : Fields} (h : (documentBlock ctx document).Runs s b s') :
    blockOutline b = documentOutline ctx document := by
  simp only [documentBlock, runs_bind, runs_pure] at h
  obtain ⟨first, _, hfirst, body, _, hbody, rfl, -⟩ := h
  have htasks := each_outline (fun numbered _ s b s' => taskBlock_outline) hbody
  have hmap (f : Value → Outline) (tasks : List Value) :
      tasks.zipIdx.map (fun n => f n.1) = tasks.map f := by
    change tasks.zipIdx.map (f ∘ Prod.fst) = _
    rw [← List.map_map, List.zipIdx_map_fst]
  rw [blockOutline_append, prologue_outline hfirst, htasks, hmap, documentOutline]

end Documents

end FlowScript.Program

namespace FlowScript

open Program Program.Pass

/-- In a compiled program every header owns a statement exactly if the outline of the document says
so: no flow that stands below a header amounts to remarks. -/
theorem headers_own_statement_iff {tree : File.Tree} {settings : Settings}
    {request : Compilation.Request} {compilation : Compilation}
    (h : compile tree settings request = .ok compilation) :
    ∃ loaded fields block state, request.source.load tree settings = .ok loaded ∧
      loaded.document.fields? = some fields ∧
      (documentBlock (request.context settings) fields).run {} = .ok (block, state) ∧
      LaysOut (request.context settings) (filled block) compilation.code ∧
      ((∀ header body,
          Occurs header body [.block (.run (request.context settings).agent.name) (filled block)] →
          OwnsStatement body) ↔
        (documentOutline (request.context settings) fields).fits false = true) := by
  obtain ⟨loaded, fields, block, state, hloaded, hfields, hrun, hcode⟩ := compile_eq_ok h
  refine ⟨loaded, fields, block, state, hloaded, hfields, hrun, hcode, ?_⟩
  rw [← blockOutline_owning_iff, blockOutline_singleton, outline_filled, documentBlock_outline hrun]

/-- The counter of a conditional loop stands below its header although the only step of its flow is
skipped, and of two branches one is empty and one declares the name that it binds. -/
def closedFlow : Flow :=
  [.map [(.text "loop", .map [(.text "type", .text "while"), (.text "condition", .text "more"),
      (.text "flow", .list [.null])])],
   .map [(.text "parallel", .map [(.text "tasks", .list [.map [(.text "flow", .list [])],
      .map [(.text "flow", .list [.map [(.text "variables", .map [(.text "a", .int 1)])]])]])])]]

theorem closedFlow_headers_own_statement :
    ∃ compilation block state,
      compile { here := ⟨true, [], false⟩ } {}
        { source := .value (.map (oneTask closedFlow)), template := .text "module" } = .ok compilation ∧
      (documentBlock {} (oneTask closedFlow)).run {} = .ok (block, state) ∧
      ∀ header body, Occurs header body [.block (.run "agent") (filled block)] → OwnsStatement body := by
  have hok : (compile { here := ⟨true, [], false⟩ } {}
      { source := .value (.map (oneTask closedFlow)), template := .text "module" }).toOption.isSome =
        true := by decide +kernel
  cases hc : compile { here := ⟨true, [], false⟩ } {}
      { source := .value (.map (oneTask closedFlow)), template := .text "module" } with
  | error e => simp [hc, Except.toOption] at hok
  | ok compilation =>
    obtain ⟨loaded, fields, block, state, hloaded, hfields, hrun, -, hiff⟩ := headers_own_statement_iff hc
    obtain rfl := Except.ok.inj hloaded
    obtain rfl := Option.some.inj hfields
    exact ⟨compilation, block, state, rfl, hrun, hiff.mpr (by decide +kernel)⟩

/-- A step that is skipped leaves a comment, and then nothing else stands below the header. -/
theorem header_over_comment_alone :
    ∃ compilation block state,
      compile { here := ⟨true, [], false⟩ } {}
        { source := .value (.map ((.text "web", .map []) :: oneTask [.null]))
          template := .text "module" } = .ok compilation ∧
      compilation.code = "\"\"\"\nAutomation flow generated by flowtree from <dict>.\n\"\"\"\n\n\n" ++
        "async def run_flow(agent):\n    # Skipped invalid step: null\n" ∧
      (documentBlock {} ((.text "web", .map []) :: oneTask [.null])).run {} = .ok (block, state) ∧
      ¬ OwnsStatement (filled block) := by
  have hcode : (compile { here := ⟨true, [], false⟩ } {}
      { source := .value (.map ((.text "web", .map []) :: oneTask [.null]))
        template := .text "module" }).toOption.map (·.code) =
      some ("\"\"\"\nAutomation flow generated by flowtree from <dict>.\n\"\"\"\n\n\n" ++
        "async def run_flow(agent):\n    # Skipped invalid step: null\n") := by decide +kernel
  cases hc : compile { here := ⟨true, [], false⟩ } {}
      { source := .value (.map ((.text "web", .map []) :: oneTask [.null]))
        template := .text "module" } with
  | error e => simp [hc, Except.toOption] at hcode
  | ok compilation =>
    refine ⟨compilation, _, _, rfl, ?_, rfl, ?_⟩
    · rw [hc] at hcode
      exact Option.some.inj hcode
    · rw [ownsStatement_iff]
      decide +kernel

end FlowScript
