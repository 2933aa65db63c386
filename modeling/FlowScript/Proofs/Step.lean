import FlowScript.Proofs.Leaf

/-!
# What the rule of a step does

`StepRun` says once for every kind of step which flows its rule compiles, in which order, what it binds
in between and which block it makes of them. Facts about compiled flows are proved from it, one case
for each construct. The texts of conditions, counts and expressions are left open.
-/
namespace FlowScript

open Construct

namespace Step

/-- Whether a loop has a known kind and the field that its kind needs. -/
def isLoop (loop : Loop) : Bool :=
  match loop.kind with
  | some "for" => !loop.items.isNull
  | some "while" => !loop.condition.isNull
  | some "repeat" => !loop.count.isNull
  | _ => false

/-- Whether a call has a known kind and names its target. -/
def isCall (call : Fields) : Bool :=
  ((call.get "type").text? == some "http" && (call.get "url").isFilled) ||
    ((call.get "type").text? == some "shell" && (call.get "command").isFilled)

/-- Whether a step cannot be compiled, so that a comment stands for it. -/
def isSkipped (step : Step) : Bool :=
  match step.kind with
  | .variables => !(step.get "variables").isMap
  | .logic => ((step.get "logic").field "if").isNull
  | .loop => !(Loop.read? step).any isLoop
  | .importing => (Import.ofStep step).path.nonBlank?.isNone
  | .transform => !(step.get "data_transform").isMap
  | .guarded => false
  | .call => !((step.get "external_call").fields?).any isCall
  | .parallel => (Parallel.read? step).isNone
  | .use => (Use.ofStep step).reference.nonBlank?.isNone
  | .action => false
  | .unknown => true

end Step

namespace Program

open Pass

/-- A comment that quotes an entry stands for it, and the entry is recorded. -/
structure Pass.State.Skips (entry : Value) (s s' : State) : Prop where
  scope : s'.scope = s.scope
  groups : s'.groups = s.groups
  handed : s'.handed = s.handed
  skipped : s'.skipped = s.skipped ++ [entry]
  quoted : ∃ text, entry.json = .ok text

/-- A parallel group is opened. -/
structure Pass.State.Opens (s s' : State) : Prop where
  scope : s'.scope = s.scope
  groups : s'.groups = s.groups + 1
  handed : s'.handed = s.handed
  skipped : s'.skipped = s.skipped

/-- The name of the counter of a conditional loop that starts in a scope. -/
def counterOf (scope : Scope) (loop : Loop) : String :=
  nameOr loop.counterVar (scope.freshName counterBase)

/-- The line that declares the names that a branch assigns to, if there are any. -/
def branchHeader (names : List String) : Block :=
  if names.isEmpty then [] else [.line (.nonlocals names)]

/-- The line that sets the hoisted names off, if there are any. -/
def afterHoisted (hoisted : Block) : Block := if hoisted.isEmpty then [] else [.blank]

section Runs

variable (nested : Flow → Pass Block)

inductive HandlerRun (guard : Guard) : State → Block → State → Prop where
  | handled {flow : Flow} {body : Block} {s s₁ s' : State} (hf : guard.handler = some flow)
      (hb : s.Binds [nameOr guard.errorName "e"] s₁) (hn : (nested flow).Runs s₁ body s') :
      HandlerRun guard s
        [.block (.handle (some (nameOr guard.errorName "e"))) (filled body)] s'
  | absent {s : State} (hf : guard.handler = none) (hc : guard.cleanup.isSome) :
      HandlerRun guard s [] s
  | ignored {s s' : State} (hf : guard.handler = none) (hc : guard.cleanup = none)
      (hb : s.Binds [] s') : HandlerRun guard s [.block (.handle none) [.line .pass]] s'

inductive CleanupRun (guard : Guard) : State → Block → State → Prop where
  | cleaned {flow : Flow} {body : Block} {s s' : State} (hf : guard.cleanup = some flow)
      (hn : (nested flow).Runs s body s') : CleanupRun guard s [.block .cleanup (filled body)] s'
  | absent {s : State} (hf : guard.cleanup = none) : CleanupRun guard s [] s

/-- The branches of a group, each compiled from the scope that all of them start in. -/
inductive BranchesRun (merges : Bool) (group : Nat) :
    List NamedBranch → State → Block → State → Prop where
  | nil {s : State} : BranchesRun merges group [] s [] s
  | cons {b : NamedBranch} {rest : List NamedBranch} {body ending others : Block} {s t s' : State}
      (hn : (nested b.branch.flow).Runs s body t)
      (he : (branchEnd merges b.branch.flow b.names body).Runs { t with scope := s.scope } ending
        { t with scope := s.scope })
      (hr : BranchesRun merges group rest { t with scope := s.scope } others s') :
      BranchesRun merges group (b :: rest) s
        (.block (.branch (branchFunction group b.index)) (branchHeader b.names ++ body ++ ending) ::
          .blank :: others) s'

/-- What the rule of a step does when it ends without a fault. -/
inductive StepRun (ctx : Context) (step : Step) : State → Block → State → Prop where
  | skipped {text : String} {s s' : State} (hskip : step.isSkipped = true)
      (hs : s.Skips (.map step) s') : StepRun ctx step s [.comment text] s'
  | assignments {bindings : Fields} {b : Block} {s s' : State} (hk : step.kind = .variables)
      (hc : step.isSkipped = false) (hb : (step.get "variables").fields? = some bindings)
      (run : (bindingsBlock ctx bindings).Runs s b s') : StepRun ctx step s b s'
  | importing {path : String} {b : Block} {s s' : State} (hk : step.kind = .importing)
      (hc : step.isSkipped = false) (hp : (Import.ofStep step).path.nonBlank? = some path)
      (run : (importBlock ctx (Import.ofStep step) path).Runs s b s') : StepRun ctx step s b s'
  | transform {t : Transform} {texts : List String} {code : String} {codes : List String}
      {s s' : State} (hk : step.kind = .transform) (hr : Transform.read? step = .ok (some t))
      (hc : step.isSkipped = false) (hb : s.Binds [nameOr t.output Transform.defaultOutput] s') :
      StepRun ctx step s (texts.map .comment ++
        (code :: codes).map fun c => .line (.assign (nameOr t.output Transform.defaultOutput) c)) s'
  | call {c : Call} {code : String} {s s' : State} (hk : step.kind = .call)
      (hr : Call.read? step = .ok (some c)) (hc : step.isSkipped = false)
      (hb : s.Binds [nameOr c.resultName "response"] s') :
      StepRun ctx step s [.line (.assign (nameOr c.resultName "response") code)] s'
  | use {code : String} {s s' : State} (hk : step.kind = .use) (hc : step.isSkipped = false)
      (hb : s.Binds [] s') : StepRun ctx step s [.line (.evaluate ("await " ++ code))] s'
  | query {action : Action} {given code : String} {s s' : State} (hk : step.kind = .action)
      (hr : Action.read? step = some action) (hc : step.isSkipped = false)
      (hg : action.resultName = some given) (hb : s.Binds [nameOr (.text given) "result"] s') :
      StepRun ctx step s [.line (.assign (nameOr (.text given) "result") code)] s'
  | perform {action : Action} {code : String} {s s' : State} (hk : step.kind = .action)
      (hr : Action.read? step = some action) (hc : step.isSkipped = false) (hg : action.resultName = none)
      (hb : s.Binds [] s') : StepRun ctx step s [.line (.evaluate ("await " ++ code))] s'
  | conditional {condition : String} {yes : Block} {s s₁ s' : State} (hk : step.kind = .logic)
      (hc : step.isSkipped = false) (he : ((step.get "logic").field "else").isNull = true)
      (hb : s.Binds [] s₁) (hn : (nested ((step.get "logic").field "then").items).Runs s₁ yes s') :
      StepRun ctx step s [.block (.whenTrue condition) (filled yes)] s'
  | alternative {condition : String} {yes no : Block} {s s₁ s₂ s' : State} (hk : step.kind = .logic)
      (hc : step.isSkipped = false) (he : ((step.get "logic").field "else").isNull = false)
      (hb : s.Binds [] s₁) (hy : (nested ((step.get "logic").field "then").items).Runs s₁ yes s₂)
      (hn : (nested ((step.get "logic").field "else").items).Runs s₂ no s') :
      StepRun ctx step s
        [.block (.whenTrue condition) (filled yes), .block .otherwise (filled no)] s'
  | forEach {loop : Loop} {items : String} {body : Block} {s s₁ s' : State} (hk : step.kind = .loop)
      (hr : Loop.read? step = some loop) (hc : step.isSkipped = false) (hl : loop.kind = some "for")
      (hi : loop.indexVar.isNull = true) (hb : s.Binds [nameOr loop.itemVar "item"] s₁)
      (hn : (nested loop.flow).Runs s₁ body s') :
      StepRun ctx step s [.block (.forEach none (nameOr loop.itemVar "item") items) (filled body)] s'
  | forIndexed {loop : Loop} {items : String} {body : Block} {s s₁ s' : State} (hk : step.kind = .loop)
      (hr : Loop.read? step = some loop) (hc : step.isSkipped = false) (hl : loop.kind = some "for")
      (hi : loop.indexVar.isNull = false)
      (hb : s.Binds [nameOr loop.itemVar "item", nameOr loop.indexVar "index"] s₁)
      (hn : (nested loop.flow).Runs s₁ body s') :
      StepRun ctx step s [.block (.forEach (some (nameOr loop.indexVar "index"))
        (nameOr loop.itemVar "item") items) (filled body)] s'
  | bounded {loop : Loop} {bound condition : String} {body : Block} {s s₁ s' : State}
      (hk : step.kind = .loop) (hr : Loop.read? step = some loop) (hc : step.isSkipped = false)
      (hl : loop.kind = some "while") (hb : s.Binds [counterOf s.scope loop] s₁)
      (hn : (nested loop.flow).Runs s₁ body s') :
      StepRun ctx step s [.line (.start (counterOf s.scope loop)),
        .block (.bounded (counterOf s.scope loop) bound condition)
          (body ++ [.line (.increment (counterOf s.scope loop))])] s'
  | counted {loop : Loop} {count : String} {body : Block} {s s₁ s' : State} (hk : step.kind = .loop)
      (hr : Loop.read? step = some loop) (hc : step.isSkipped = false) (hl : loop.kind = some "repeat")
      (hb : s.Binds [nameOr loop.indexVar "i"] s₁) (hn : (nested loop.flow).Runs s₁ body s') :
      StepRun ctx step s [.block (.counted (nameOr loop.indexVar "i") count) (filled body)] s'
  | guarded {body handler cleanup : Block} {s s₁ s₂ s₃ s' : State} (hk : step.kind = .guarded)
      (hc : step.isSkipped = false) (hb : s.Binds [] s₁)
      (hn : (nested ((Guard.read step).body.getD [])).Runs s₁ body s₂)
      (hh : HandlerRun nested (Guard.read step) s₂ handler s₃)
      (hf : CleanupRun nested (Guard.read step) s₃ cleanup s') :
      StepRun ctx step s (.block .attempt (filled body) :: (handler ++ cleanup)) s'
  | emptyGroup {parallel : Parallel} {text : String} {s s' : State} (hk : step.kind = .parallel)
      (hr : Parallel.read? step = some parallel) (hc : step.isSkipped = false)
      (he : parallel.branches = []) (hb : s.Binds [] s') : StepRun ctx step s [.comment text] s'
  | group {parallel : Parallel} {named : List NamedBranch} {functions : Block} {s s₁ s₂ s₃ s' : State}
      (hk : step.kind = .parallel) (hr : Parallel.read? step = some parallel)
      (hc : step.isSkipped = false) (he : parallel.branches ≠ [])
      (hnames : nameBranches ctx parallel = .ok named)
      (ho : s.Opens s₁) (hh : s₁.Binds (named.flatMap (·.names)) s₂)
      (hf : BranchesRun nested parallel.merges s₁.groups named s₂ functions s₃)
      (hb : s₃.Binds parallel.outputs s') :
      StepRun ctx step s
        ((distinctFrom s.scope.names (named.flatMap (·.names))).map (fun n => .line (.hoist n)) ++
          afterHoisted ((distinctFrom s.scope.names (named.flatMap (·.names))).map
            fun n => .line (.hoist n)) ++ functions ++
          [.line (.join parallel.outputs (named.map fun b => branchFunction s₁.groups b.index))]) s'

end Runs

variable {ctx : Context} {nested : Flow → Pass Block} {step : Step} {b : Block} {s s' : State}

/-! ## The rules one by one -/

theorem skip_spec {reason : String} {entry : Value} (h : (skip reason entry).Runs s b s') :
    (∃ text, b = [.comment text]) ∧ s.Skips entry s' := by
  simp only [skip, jsonOf, runs_bind, runs_lift, runs_modify, runs_pure, warn] at h
  obtain ⟨quoted, _, ⟨hquoted, rfl⟩, _, _, rfl, _, _, rfl, rfl, rfl⟩ := h
  exact ⟨⟨_, rfl⟩, rfl, rfl, rfl, rfl, quoted, hquoted⟩

theorem StepRun.of_skip {reason : String} (hskip : step.isSkipped = true)
    (h : (skip reason (.map step)).Runs s b s') : StepRun nested ctx step s b s' := by
  obtain ⟨⟨text, rfl⟩, hs⟩ := skip_spec h
  exact .skipped hskip hs

theorem variablesBlock_run (hk : step.kind = .variables) (h : (variablesBlock ctx step).Runs s b s') :
    StepRun nested ctx step s b s' := by
  unfold variablesBlock at h
  cases hb : (step.get "variables").fields? with
  | some bindings =>
    rw [hb] at h
    exact .assignments hk (by simp [Step.isSkipped, hk, Value.isMap, hb]) hb h
  | none =>
    rw [hb] at h
    exact .of_skip (by simp [Step.isSkipped, hk, Value.isMap, hb]) h

theorem importStepBlock_run (hk : step.kind = .importing) (h : (importStepBlock ctx step).Runs s b s') :
    StepRun nested ctx step s b s' := by
  unfold importStepBlock at h
  cases hp : (Import.ofStep step).path.nonBlank? with
  | some path =>
    simp only [hp] at h
    exact .importing hk (by simp [Step.isSkipped, hk, hp]) hp h
  | none =>
    simp only [hp] at h
    exact .of_skip (by simp [Step.isSkipped, hk, hp]) h

/-- A construct is read without a fault exactly as far as its mapping is. -/
theorem read_eq_ok {α : Type} {fields? : Option Fields} {f : Fields → Except Fault α} {r : Option α}
    (h : fields?.mapM f = .ok r) :
    (fields? = none ∧ r = none) ∨ ∃ es a, fields? = some es ∧ f es = .ok a ∧ r = some a := by
  cases fields? with
  | none => exact .inl ⟨rfl, by cases h; rfl⟩
  | some es =>
    rw [Option.mapM_some] at h
    cases hf : f es with
    | error e => simp [hf, Functor.map, Except.map] at h
    | ok a =>
      simp only [hf, Functor.map, Except.map, Except.ok.injEq] at h
      exact .inr ⟨es, a, rfl, hf, h.symm⟩

theorem transformBlock_run (hk : step.kind = .transform) (h : (transformBlock ctx step).Runs s b s') :
    StepRun nested ctx step s b s' := by
  have hwhole := h
  simp only [transformBlock, runs_bind, runs_lift] at h
  obtain ⟨read, _, ⟨hread, rfl⟩, h⟩ := h
  obtain ⟨hnone, rfl⟩ | ⟨es, t, hes, -, rfl⟩ := read_eq_ok hread
  · exact .of_skip (by simp [Step.isSkipped, hk, Value.isMap, hnone]) h
  · obtain ⟨⟨texts, code, codes, rfl⟩, hb⟩ := transformBlock_spec hread hwhole
    exact .transform hk hread (by simp [Step.isSkipped, hk, Value.isMap, hes]) hb

theorem bindCall_spec {call : Call} {expression : Pass String} (hq : Quiet expression)
    (h : (bindCall call expression).Runs s b s') :
    (∃ code, b = [.line (.assign (nameOr call.resultName "response") code)]) ∧
      s.Binds [nameOr call.resultName "response"] s' := by
  simp only [bindCall, runs_bind, runs_pure] at h
  obtain ⟨code, _, he, name, _, ht, _, _, hd, rfl, rfl⟩ := h
  obtain ⟨rfl, hname⟩ := targetName_spec ht
  exact ⟨⟨code, rfl⟩, ((hq he).trans hname).trans (binds_of_declare hd)⟩

theorem fields_of_call {es : Fields} {call : Call} (h : Call.ofFields es = .ok call) :
    call.kind = (es.get "type").text? ∧ call.url = es.get "url" ∧ call.command = es.get "command" := by
  obtain ⟨method, -, h⟩ := bind_eq_ok.mp h
  obtain rfl := Except.ok.inj h
  exact ⟨rfl, rfl, rfl⟩

theorem callBlock_run (hk : step.kind = .call) (h : (callBlock ctx step).Runs s b s') :
    StepRun nested ctx step s b s' := by
  simp only [callBlock, runs_bind, runs_lift] at h
  obtain ⟨read, _, ⟨hread, rfl⟩, h⟩ := h
  obtain ⟨hnone, rfl⟩ | ⟨es, call, hes, hcall, rfl⟩ := read_eq_ok hread
  · exact .of_skip (by simp [Step.isSkipped, hk, hnone]) h
  · obtain ⟨hkind, hurl, hcommand⟩ := fields_of_call hcall
    dsimp only at h
    rw [hkind, hurl, hcommand] at h
    split_ifs at h with hhttp hshell
    · obtain ⟨⟨code, rfl⟩, hb⟩ := bindCall_spec (requestCode_quiet ctx call) h
      exact .call hk hread (by simp only [Step.isSkipped, hk, hes]; simp [Step.isCall, hhttp]) hb
    · obtain ⟨⟨code, rfl⟩, hb⟩ := bindCall_spec (commandCode_quiet ctx call) h
      exact .call hk hread (by simp only [Step.isSkipped, hk, hes]; simp [Step.isCall, hshell]) hb
    · refine .of_skip ?_ h
      simp only [Step.isSkipped, hk, hes, Option.any_some, Step.isCall]
      simp [hhttp, hshell]

theorem useBlock_run (hk : step.kind = .use) (h : (useBlock ctx step).Runs s b s') :
    StepRun nested ctx step s b s' := by
  cases href : (Use.ofStep step).reference.nonBlank? with
  | some reference =>
    obtain ⟨⟨code, rfl⟩, hb⟩ := useBlock_spec href h
    exact .use hk (by simp [Step.isSkipped, hk, href]) hb
  | none =>
    simp only [useBlock, href] at h
    exact .of_skip (by simp [Step.isSkipped, hk, href]) h

theorem actionKeyword_of_kind (hk : step.kind = .action) : step.actionKeyword?.isSome = true := by
  unfold Step.kind at hk
  split at hk
  · rename_i k hfind
    -- None of the kinds with a key of their own is that of an action.
    have hmem := List.mem_of_find?_eq_some hfind
    rw [hk] at hmem
    exact absurd hmem (by decide)
  · split_ifs at hk with h
    exact h

theorem withResult_keyword (keyword : String) (prompt : Value) (options : Fields) (inside : Bool) :
    (Action.withResult keyword prompt options inside).keyword = keyword := by
  unfold Action.withResult
  split_ifs <;> rfl

theorem withResult_of_not_binding {keyword : String} {prompt : Value} {options : Fields} {inside : Bool}
    (h : Action.binding.contains keyword = false) :
    (Action.withResult keyword prompt options inside).resultName = none := by
  simp only [Action.withResult, h]
  rfl

theorem resultName_of_sleep {action : Action} (hr : Action.read? step = some action)
    (hs : action.keyword = "sleep") : action.resultName = none := by
  obtain ⟨keyword, -, rfl⟩ := Option.map_eq_some_iff.mp hr
  unfold Action.ofKeyword at hs ⊢
  dsimp only at hs ⊢
  split at hs
  all_goals
    rw [withResult_keyword] at hs
    subst hs
    exact withResult_of_not_binding (by decide)

theorem pause_spec {v : Value} (h : (pause ctx v).Runs s b s') :
    (∃ code, b = [.line (.evaluate ("await " ++ code))]) ∧ s.Binds [] s' := by
  have sleeps (text : String) : ∃ code, "await asyncio.sleep(" ++ text = "await " ++ code :=
    ⟨"asyncio.sleep(" ++ text, by rw [← String.append_assoc]; rfl⟩
  simp only [pause, runs_bind, runs_lift] at h
  obtain ⟨_, _, hi, seconds, _, ⟨-, rfl⟩, h⟩ := h
  have before := Quiet.requireImport _ hi
  cases seconds with
  | some seconds =>
    obtain ⟨rfl, rfl⟩ := runs_pure.mp h
    obtain ⟨code, hcode⟩ := sleeps (Number.floatText .program seconds ++ ")")
    exact ⟨⟨code, by rw [String.append_assoc, hcode]⟩, before⟩
  | none =>
    simp only [runs_bind, runs_pure] at h
    obtain ⟨text, _, hc, rfl, rfl⟩ := h
    obtain ⟨code, hcode⟩ := sleeps ("float(" ++ text ++ ") / 1000)")
    refine ⟨⟨code, ?_⟩, before.trans (valueCode_quiet _ _ hc)⟩
    rw [← hcode]
    simp only [← String.append_assoc]
    rfl

theorem actionBlock_run (hk : step.kind = .action) (h : (actionBlock ctx step).Runs s b s') :
    StepRun nested ctx step s b s' := by
  unfold actionBlock at h
  cases hr : Action.read? step with
  | none =>
    have hsome := actionKeyword_of_kind hk
    simp only [Action.read?, Option.map_eq_none_iff] at hr
    simp [hr] at hsome
  | some action =>
    have hc : step.isSkipped = false := by simp [Step.isSkipped, hk]
    simp only [hr] at h
    split_ifs at h with hsleep
    · obtain ⟨⟨code, rfl⟩, hb⟩ := pause_spec h
      exact .perform hk hr hc (resultName_of_sleep hr (by simpa using hsleep)) hb
    · simp only [runs_bind] at h
      obtain ⟨arguments, _, ha, h⟩ := h
      have before := arguments_quiet _ _ ha
      cases hg : action.resultName with
      | none =>
        simp only [hg] at h
        obtain ⟨rfl, rfl⟩ := runs_pure.mp h
        obtain ⟨rest, hcall⟩ := call_awaits ctx.agent (ctx.agent.method action.keyword)
          (arguments.map Argument.text)
        rw [hcall]
        exact .perform hk hr hc hg before
      | some given =>
        simp only [hg, runs_bind, runs_pure] at h
        obtain ⟨name, _, ht, _, _, hd, rfl, rfl⟩ := h
        obtain ⟨rfl, hname⟩ := targetName_spec ht
        exact .query hk hr hc hg ((before.trans hname).trans (binds_of_declare hd))

theorem conditionalBlock_run (hk : step.kind = .logic)
    (h : (conditionalBlock ctx nested step).Runs s b s') : StepRun nested ctx step s b s' := by
  simp only [conditionalBlock] at h
  by_cases hif : ((step.get "logic").field "if").isNull = true
  · rw [if_pos hif] at h
    exact .of_skip (by simp [Step.isSkipped, hk, hif]) h
  · have hc : step.isSkipped = false := by simpa [Step.isSkipped, hk] using hif
    simp only [if_neg hif, runs_bind] at h
    obtain ⟨condition, _, hv, yes, _, hy, h⟩ := h
    split_ifs at h with helse
    · obtain ⟨rfl, rfl⟩ := runs_pure.mp h
      exact .conditional hk hc helse (valueCode_quiet _ _ hv) hy
    · simp only [runs_bind, runs_pure] at h
      obtain ⟨no, _, hn, rfl, rfl⟩ := h
      exact .alternative hk hc (by simpa using helse) (valueCode_quiet _ _ hv) hy hn

theorem forBlock_run {loop : Loop} (hk : step.kind = .loop) (hr : Loop.read? step = some loop)
    (hc : step.isSkipped = false) (hl : loop.kind = some "for")
    (h : (forBlock ctx nested loop).Runs s b s') : StepRun nested ctx step s b s' := by
  simp only [forBlock, runs_bind] at h
  obtain ⟨items, _, hi, item, _, ht, _, _, hd, h⟩ := h
  obtain ⟨rfl, hname⟩ := targetName_spec ht
  have before := ((collectionCode_quiet _ _ hi).trans hname).trans (binds_of_declare hd)
  split_ifs at h with hindex
  · simp only [runs_bind, runs_pure] at h
    obtain ⟨body, _, hn, rfl, rfl⟩ := h
    exact .forEach hk hr hc hl hindex before hn
  · simp only [runs_bind, runs_pure] at h
    obtain ⟨index, _, ht', _, _, hd', body, _, hn, rfl, rfl⟩ := h
    obtain ⟨rfl, hname'⟩ := targetName_spec ht'
    exact .forIndexed hk hr hc hl (by simpa using hindex)
      ((before.trans hname').trans (binds_of_declare hd')) hn

theorem counterName_spec {loop : Loop} {counter : String} (h : (counterName loop).Runs s counter s') :
    counter = counterOf s.scope loop ∧ s.Binds [counterOf s.scope loop] s' := by
  unfold counterName at h
  unfold counterOf nameOr
  cases hv : loop.counterVar.identifier? with
  | some name =>
    simp only [hv, runs_bind, runs_pure] at h
    obtain ⟨_, _, hd, rfl, rfl⟩ := h
    exact ⟨rfl, binds_of_declare hd⟩
  | none =>
    simp only [hv, declareFresh, runs_bind, runs_get, runs_pure] at h
    obtain ⟨_, _, ⟨rfl, rfl⟩, _, _, hd, rfl, rfl⟩ := h
    exact ⟨rfl, binds_of_declare hd⟩

theorem whileBlock_run {loop : Loop} (hk : step.kind = .loop) (hr : Loop.read? step = some loop)
    (hc : step.isSkipped = false) (hl : loop.kind = some "while")
    (h : (whileBlock ctx nested loop).Runs s b s') : StepRun nested ctx step s b s' := by
  obtain ⟨counter, t, hn, h⟩ := runs_bind.mp h
  obtain ⟨rfl, hcounter⟩ := counterName_spec hn
  -- The bound is written in one of two ways, and what follows is the same.
  have rest {bound : String} {u : State} (hu : s.Binds [counterOf s.scope loop] u) :
      (do let condition ← valueCode ctx loop.condition
          let body ← nested loop.flow
          return [.line (.start (counterOf s.scope loop)),
            .block (.bounded (counterOf s.scope loop) bound (ctx.agent.check condition))
              (body ++ [.line (.increment (counterOf s.scope loop))])] : Pass Block).Runs u b s' →
      StepRun nested ctx step s b s' := by
    simp only [runs_bind, runs_pure]
    rintro ⟨condition, _, hv, body, _, hbody, rfl, rfl⟩
    exact .bounded hk hr hc hl (hu.trans (valueCode_quiet _ _ hv)) hbody
  dsimp only at h
  split_ifs at h
  · obtain ⟨bound, u, hb, h⟩ := runs_bind.mp h
    exact rest (hcounter.trans (Quiet.lift _ hb)) h
  · obtain ⟨bound, u, hb, h⟩ := runs_bind.mp h
    exact rest (hcounter.trans (countCode_quiet _ _ hb)) h

theorem repeatBlock_run {loop : Loop} (hk : step.kind = .loop) (hr : Loop.read? step = some loop)
    (hc : step.isSkipped = false) (hl : loop.kind = some "repeat")
    (h : (repeatBlock ctx nested loop).Runs s b s') : StepRun nested ctx step s b s' := by
  have rest {index : String} {u : State} (hi : index = nameOr loop.indexVar "i") (hu : s.Binds [] u) :
      (do declare index
          let count ← countCode ctx loop.count
          let body ← nested loop.flow
          return [.block (.counted index count) (filled body)] : Pass Block).Runs u b s' →
      StepRun nested ctx step s b s' := by
    simp only [runs_bind, runs_pure, hi]
    rintro ⟨_, _, hd, count, _, hcount, body, _, hbody, rfl, rfl⟩
    exact .counted hk hr hc hl ((hu.trans (binds_of_declare hd)).trans (countCode_quiet _ _ hcount)) hbody
  simp only [repeatBlock] at h
  split_ifs at h with hnull
  · obtain ⟨index, u, hi, h⟩ := runs_bind.mp h
    obtain ⟨rfl, rfl⟩ := runs_pure.mp hi
    refine rest ?_ (.refl _) h
    cases hv : loop.indexVar <;> simp_all [Value.isNull, nameOr, Value.identifier?]
  · obtain ⟨index, u, hi, h⟩ := runs_bind.mp h
    obtain ⟨rfl, hname⟩ := targetName_spec hi
    exact rest rfl hname h

theorem loopBlock_run (hk : step.kind = .loop) (h : (loopBlock ctx nested step).Runs s b s') :
    StepRun nested ctx step s b s' := by
  unfold loopBlock at h
  cases hr : Loop.read? step with
  | none =>
    rw [hr] at h
    exact .of_skip (by simp [Step.isSkipped, hk, hr]) h
  | some loop =>
    have hskip : step.isSkipped = !Step.isLoop loop := by simp [Step.isSkipped, hk, hr]
    unfold Step.isLoop at hskip
    simp only [hr] at h
    split at h
    · rename_i hl
      simp only [hl] at hskip
      split_ifs at h with hnull
      · exact .of_skip (by simpa [hnull] using hskip) h
      · exact forBlock_run hk hr (by simpa [hnull] using hskip) hl h
    · rename_i hl
      simp only [hl] at hskip
      split_ifs at h with hnull
      · exact .of_skip (by simpa [hnull] using hskip) h
      · exact whileBlock_run hk hr (by simpa [hnull] using hskip) hl h
    · rename_i hl
      simp only [hl] at hskip
      split_ifs at h with hnull
      · exact .of_skip (by simpa [hnull] using hskip) h
      · exact repeatBlock_run hk hr (by simpa [hnull] using hskip) hl h
    · refine .of_skip ?_ h
      rw [hskip]
      split <;> simp_all

theorem handlerBlock_run {guard : Guard} (h : (handlerBlock nested guard).Runs s b s') :
    HandlerRun nested guard s b s' := by
  unfold handlerBlock at h
  cases hf : guard.handler with
  | some flow =>
    simp only [hf, runs_bind, runs_pure] at h
    obtain ⟨name, _, ht, _, _, hd, body, _, hn, rfl, rfl⟩ := h
    obtain ⟨rfl, hname⟩ := targetName_spec ht
    exact .handled hf (hname.trans (binds_of_declare hd)) hn
  | none =>
    simp only [hf] at h
    split_ifs at h with hc
    · obtain ⟨rfl, rfl⟩ := runs_pure.mp h
      exact .absent hf hc
    · simp only [runs_bind, runs_pure] at h
      obtain ⟨_, _, hw, rfl, rfl⟩ := h
      exact .ignored hf (by simpa using hc) (Quiet.warn _ hw)

theorem cleanupBlock_run {guard : Guard} (h : (cleanupBlock nested guard).Runs s b s') :
    CleanupRun nested guard s b s' := by
  unfold cleanupBlock at h
  cases hf : guard.cleanup with
  | some flow =>
    simp only [hf, runs_bind, runs_pure] at h
    obtain ⟨body, _, hn, rfl, rfl⟩ := h
    exact .cleaned hf hn
  | none =>
    simp only [hf] at h
    obtain ⟨rfl, rfl⟩ := runs_pure.mp h
    exact .absent hf

theorem guardBlock_run (hk : step.kind = .guarded) (h : (guardBlock nested step).Runs s b s') :
    StepRun nested ctx step s b s' := by
  have rest {u : State} (hu : s.Binds [] u) :
      (do let body ← nested ((Guard.read step).body.getD [])
          let handler ← handlerBlock nested (Guard.read step)
          let cleanup ← cleanupBlock nested (Guard.read step)
          return .block .attempt (filled body) :: (handler ++ cleanup) : Pass Block).Runs u b s' →
      StepRun nested ctx step s b s' := by
    simp only [runs_bind, runs_pure]
    rintro ⟨body, _, hn, handler, _, hh, cleanup, _, hc, rfl, rfl⟩
    exact .guarded hk (by simp [Step.isSkipped, hk]) hu hn (handlerBlock_run hh) (cleanupBlock_run hc)
  simp only [guardBlock] at h
  split_ifs at h
  · obtain ⟨_, u, hw, h⟩ := runs_bind.mp h
    exact rest (Quiet.warn _ hw) h
  · exact rest (.refl _) h

/-- Which names are seen matters, not their order. -/
theorem distinctFrom_congr {seen seen' : List String} (he : ∀ n, n ∈ seen ↔ n ∈ seen')
    (names : List String) : distinctFrom seen names = distinctFrom seen' names := by
  induction names generalizing seen seen' with
  | nil => rfl
  | cons name rest ih =>
    have hmem : seen.contains name = seen'.contains name := by
      rw [Bool.eq_iff_iff, List.contains_iff_mem, List.contains_iff_mem, he]
    have hcons : ∀ n, n ∈ name :: seen ↔ n ∈ name :: seen' := fun n => by
      rw [List.mem_cons, List.mem_cons, he]
    unfold distinctFrom
    rw [hmem, ih he, ih hcons]

theorem hoist_spec {names : List String} (h : (hoist names).Runs s b s') :
    b = (distinctFrom s.scope.names names).map (fun n => .line (.hoist n)) ∧ s.Binds names s' := by
  induction names generalizing s b with
  | nil =>
    obtain ⟨rfl, rfl⟩ := runs_pure.mp h
    exact ⟨rfl, .refl _⟩
  | cons name rest ih =>
    simp only [hoist, runs_bind, runs_get, runs_pure] at h
    obtain ⟨_, _, ⟨rfl, rfl⟩, _, t, hd, others, _, hr, rfl, rfl⟩ := h
    have hbinds := binds_of_declare hd
    obtain ⟨rfl, hrest⟩ := ih hr
    refine ⟨?_, hbinds.trans hrest⟩
    by_cases hknown : s.scope.contains name = true
    · have hsame : ∀ n, n ∈ t.scope.names ↔ n ∈ s.scope.names := fun n => by
        rw [hbinds.scope, List.mem_singleton, or_iff_left_of_imp]
        rintro rfl
        exact Scope.contains_iff.mp hknown
      rw [if_pos hknown, distinctFrom_congr hsame, distinctFrom, if_pos]
      exact hknown
    · have hmore : ∀ n, n ∈ t.scope.names ↔ n ∈ name :: s.scope.names := fun n => by
        rw [hbinds.scope, List.mem_singleton, List.mem_cons, or_comm]
      rw [if_neg hknown, distinctFrom_congr hmore, distinctFrom, if_neg, List.map_cons]
      exact hknown

theorem branchEnd_state {merges : Bool} {flow : Flow} {names : List String} {body : Block}
    (h : (branchEnd merges flow names body).Runs s b s') : s' = s := by
  unfold branchEnd at h
  split_ifs at h
  · simp only [runs_bind, runs_lift, runs_pure] at h
    obtain ⟨_, _, ⟨-, rfl⟩, -, rfl⟩ := h
    rfl
  all_goals exact (runs_pure.mp h).2

theorem branchesRun_of_each {merges : Bool} {group : Nat} {named : List NamedBranch}
    (h : (each (branchBlock nested merges group) named).Runs s b s') :
    BranchesRun nested merges group named s b s' := by
  induction named generalizing s b with
  | nil =>
    obtain ⟨rfl, rfl⟩ := runs_each_nil.mp h
    exact .nil
  | cons branch rest ih =>
    obtain ⟨first, u, others, hf, hr, rfl⟩ := runs_each_cons.mp h
    simp only [branchBlock, keepScope, runs_bind, runs_get, runs_modify, runs_pure] at hf
    obtain ⟨body, _, ⟨_, _, ⟨rfl, rfl⟩, _, t, hn, _, _, rfl, rfl, rfl⟩, ending, _, he, rfl, rfl⟩ := hf
    obtain rfl := branchEnd_state he
    exact .cons hn he (ih hr)

/-- The branches are named in their order, each by the names that the walk finds in it. -/
theorem nameBranches_spec {parallel : Parallel} {named : List NamedBranch}
    (h : nameBranches ctx parallel = .ok named) :
    named.map (·.branch) = parallel.branches ∧ ∀ b ∈ named, ∃ levels,
      ctx.settings.walkLevels = .ok levels ∧ b.branch.flow.boundNames false levels = .ok b.names := by
  rw [← List.zipIdx_map_fst 0 parallel.branches]
  have hall := forall₂_of_mapM h
  clear h
  generalize parallel.branches.zipIdx = numbered at hall ⊢
  induction hall with
  | nil => simp
  | @cons numbered b rest others hb _ ih =>
    obtain ⟨levels, hlevels, hb⟩ := bind_eq_ok.mp hb
    obtain ⟨names, hnames, hb⟩ := bind_eq_ok.mp hb
    obtain rfl := Except.ok.inj hb
    refine ⟨by simp [ih.1], ?_⟩
    rintro c (_ | ⟨_, hc⟩)
    · exact ⟨levels, hlevels, hnames⟩
    · exact ih.2 c hc

/-- A state after a group has been opened. -/
def opened (s : State) : State := { s with needs := s.needs.addHelper .gatherAll, groups := s.groups + 1 }

/-- The parts of a group, one after the other. -/
theorem runs_groupBlock {parallel : Parallel} : (groupBlock ctx nested parallel).Runs s b s' ↔
    ∃ named hoisted s₂ functions s₃, nameBranches ctx parallel = .ok named ∧
      (hoist (named.flatMap (·.names))).Runs (opened s) hoisted s₂ ∧
      (each (branchBlock nested parallel.merges (opened s).groups) named).Runs s₂ functions s₃ ∧
      (declareAll parallel.outputs).Runs s₃ () s' ∧
      b = hoisted ++ afterHoisted hoisted ++ functions ++
        [.line (.join parallel.outputs (named.map fun b => branchFunction (opened s).groups b.index))] := by
  simp only [groupBlock, requireHelper, nextGroup, runs_bind, runs_modify, runs_get, runs_lift, runs_pure]
  constructor
  · rintro ⟨_, _, rfl, group, _, ⟨_, _, rfl, _, _, ⟨rfl, rfl⟩, rfl, rfl⟩, named, _, ⟨hnames, rfl⟩,
      hoisted, s₂, hh, functions, s₃, hf, _, _, ho, rfl, rfl⟩
    exact ⟨named, hoisted, s₂, functions, s₃, hnames, hh, hf, ho, rfl⟩
  · rintro ⟨named, hoisted, s₂, functions, s₃, hnames, hh, hf, ho, rfl⟩
    exact ⟨(), _, rfl, _, _, ⟨(), _, rfl, _, _, ⟨rfl, rfl⟩, rfl, rfl⟩, named, _, ⟨hnames, rfl⟩,
      hoisted, s₂, hh, functions, s₃, hf, (), s', ho, rfl, rfl⟩

theorem groupBlock_run {parallel : Parallel} (hk : step.kind = .parallel)
    (hr : Parallel.read? step = some parallel) (hc : step.isSkipped = false)
    (he : parallel.branches ≠ []) (h : (groupBlock ctx nested parallel).Runs s b s') :
    StepRun nested ctx step s b s' := by
  obtain ⟨named, hoisted, s₂, functions, s₃, hnames, hh, hf, ho, rfl⟩ := runs_groupBlock.mp h
  have hopens : s.Opens (opened s) := ⟨rfl, rfl, rfl, rfl⟩
  obtain ⟨rfl, hbinds⟩ := hoist_spec hh
  rw [hopens.scope]
  exact .group hk hr hc he hnames hopens hbinds (branchesRun_of_each hf) (binds_of_declareAll ho)

theorem parallelBlock_run (hk : step.kind = .parallel)
    (h : (parallelBlock ctx nested step).Runs s b s') : StepRun nested ctx step s b s' := by
  unfold parallelBlock at h
  cases hr : Parallel.read? step with
  | none =>
    simp only [hr] at h
    exact .of_skip (by simp [Step.isSkipped, hk, hr]) h
  | some parallel =>
    have hc : step.isSkipped = false := by simp [Step.isSkipped, hk, hr]
    simp only [hr] at h
    split_ifs at h with he
    · simp only [runs_bind, runs_pure] at h
      obtain ⟨_, _, hw, rfl, rfl⟩ := h
      exact .emptyGroup hk hr hc (by simpa using he) (Quiet.warn _ hw)
    · exact groupBlock_run hk hr hc (by simpa using he) h

/-! ## Steps and flows -/

theorem stepRun_of_runs (h : (stepBlock ctx nested step).Runs s b s') :
    StepRun nested ctx step s b s' := by
  unfold stepBlock at h
  split at h
  case h_1 hk => exact variablesBlock_run hk h
  case h_2 hk => exact conditionalBlock_run hk h
  case h_3 hk => exact loopBlock_run hk h
  case h_4 hk => exact importStepBlock_run hk h
  case h_5 hk => exact transformBlock_run hk h
  case h_6 hk => exact guardBlock_run hk h
  case h_7 hk => exact callBlock_run hk h
  case h_8 hk => exact parallelBlock_run hk h
  case h_9 hk => exact useBlock_run hk h
  case h_10 hk => exact actionBlock_run hk h
  case h_11 hk => exact .of_skip (by simp [Step.isSkipped, hk]) h

theorem StepRun.of_isSkipped (hskip : step.isSkipped = true) (h : StepRun nested ctx step s b s') :
    (∃ text, b = [.comment text]) ∧ s.Skips (.map step) s' := by
  cases h with
  | skipped _ hs => exact ⟨⟨_, rfl⟩, hs⟩
  | _ => simp_all

/-- What compiling an entry of a flow does: a step is recorded and given to its rule, and of any other
entry a comment is left. -/
theorem entry_run {entry : Value} (h : (entryOfFlow ctx nested entry).Runs s b s') :
    (∃ step, entry.step? = some step ∧
      StepRun nested ctx step { s with handed := s.handed ++ [step] } b s') ∨
    (entry.step? = none ∧ (∃ text, b = [.comment text]) ∧ s.Skips entry s') := by
  unfold entryOfFlow at h
  cases he : entry.step? with
  | some step =>
    simp only [he, hand, runs_bind, runs_modify] at h
    obtain ⟨_, _, rfl, h⟩ := h
    exact .inl ⟨step, rfl, stepRun_of_runs h⟩
  | none =>
    simp only [he] at h
    exact .inr ⟨rfl, skip_spec h⟩

theorem flowBlock_zero_run {flow : Flow} (h : (flowBlock ctx 0 flow).Runs s b s') :
    (∃ text, b = [.comment text]) ∧ s.Binds [] s' := by
  simp only [flowBlock, runs_bind, runs_lift, runs_pure] at h
  obtain ⟨_, _, ⟨-, rfl⟩, _, _, hw, rfl, rfl⟩ := h
  exact ⟨⟨_, rfl⟩, Quiet.warn _ hw⟩

end Program

end FlowScript
