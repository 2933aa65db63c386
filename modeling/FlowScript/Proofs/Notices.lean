import Mathlib.Algebra.GroupWithZero.Nat
import FlowScript.Proofs.Needed

/-!
# Flows that are left out

The warnings and the comments of a pass count the flows that it leaves out. A step leaves out what the
flows leave out that its rule compiles, so the number is a sum over the flows of the steps of a flow.
-/
namespace FlowScript.Program

open Construct Pass

variable {settings : Settings} {text : String}

/-! ## Comments -/

mutual

/-- How many comments of an item say that a flow is left out. -/
def Item.notices : Item → Nat
  | .line _ => 0
  | .comment text => if text = limitNotice then 1 else 0
  | .blank => 0
  | .block _ body => blockNotices body

def blockNotices : List Item → Nat
  | [] => 0
  | item :: items => item.notices + blockNotices items

end

@[simp] theorem blockNotices_nil : blockNotices [] = 0 := rfl

@[simp] theorem blockNotices_cons (item : Item) (items : Block) :
    blockNotices (item :: items) = item.notices + blockNotices items := rfl

@[simp] theorem blockNotices_append (a b : Block) : blockNotices (a ++ b) = blockNotices a + blockNotices b := by
  induction a with
  | nil => simp
  | cons item items ih =>
    simp only [List.cons_append, blockNotices_cons, ih]
    omega

namespace Item

@[simp] theorem notices_line (statement : Statement) : (line statement).notices = 0 := rfl

@[simp] theorem notices_blank : blank.notices = 0 := rfl

@[simp] theorem notices_block (header : Header) (body : Block) :
    (block header body).notices = blockNotices body := rfl

theorem notices_comment (h : isPlain text = true) : (comment text).notices = 0 :=
  if_neg (ne_limitNotice h)

end Item

@[simp] theorem notices_filled (block : Block) : blockNotices (filled block) = blockNotices block := by
  cases block <;> simp [filled]

namespace Pass

/-! ## Warnings -/

/-- How many warnings of a state say that a flow is left out. -/
def State.notices (settings : Settings) (s : State) : Nat := s.warnings.count (limitWarning settings)

theorem State.Notes.notices {s s' : State} (h : s.Notes s') (settings : Settings) :
    s'.notices settings = s.notices settings := by
  obtain ⟨more, hmore, hplain⟩ := h.warnings
  have hnone : more.count (limitWarning settings) = 0 :=
    List.count_eq_zero.mpr fun hmem => ne_limitWarning (hplain _ hmem) rfl
  rw [State.notices, hmore, List.count_append, hnone]
  rfl

/-- A pass that leaves a number of flows out, with a warning and a comment for each of them. -/
def Cuts (settings : Settings) (count : Nat) (p : Pass Block) : Prop :=
  ∀ ⦃s : State⦄ ⦃b : Block⦄ ⦃s' : State⦄, p.Runs s b s' →
    s'.notices settings = s.notices settings + count ∧ blockNotices b = count

namespace Cuts

variable {α : Type} {count : Nat} {p : Pass Block}

protected theorem pure {b : Block} (h : blockNotices b = 0) : Cuts settings 0 (pure b) := by
  intro s c s' hrun
  obtain ⟨rfl, rfl⟩ := runs_pure.mp hrun
  exact ⟨rfl, h⟩

/-- What a pass on the side finds out may be used. -/
protected theorem after {q : Pass α} {f : α → Pass Block} (hq : Noting q)
    (hf : ∀ a, Cuts settings count (f a)) : Cuts settings count (q >>= f) := by
  intro s b s' h
  obtain ⟨a, t, h₁, h₂⟩ := runs_bind.mp h
  obtain ⟨hwarnings, hcomments⟩ := hf a h₂
  exact ⟨by rw [hwarnings, (hq h₁).notices settings], hcomments⟩

/-- So may what a pass finds out that does not warn at all. -/
theorem afterSilent {q : Pass α} {f : α → Pass Block}
    (hq : ∀ {s a t}, q.Runs s a t → t.warnings = s.warnings) (hf : ∀ a, Cuts settings count (f a)) :
    Cuts settings count (q >>= f) := by
  intro s b s' h
  obtain ⟨a, t, h₁, h₂⟩ := runs_bind.mp h
  obtain ⟨hwarnings, hcomments⟩ := hf a h₂
  exact ⟨by rw [hwarnings, State.notices, hq h₁, State.notices], hcomments⟩

theorem afterDeclare {name : String} {f : Unit → Pass Block} (hf : ∀ u, Cuts settings count (f u)) :
    Cuts settings count (declare name >>= f) := by
  refine .afterSilent (fun h => ?_) hf
  obtain rfl := runs_modify.mp h
  rfl

protected theorem ite {c : Prop} [Decidable c] {q : Pass Block} (hp : Cuts settings count p)
    (hq : Cuts settings count q) : Cuts settings count (if c then p else q) := by
  split_ifs
  · exact hp
  · exact hq

/-- A block may be put into others. -/
theorem wrap {g : Block → Block} (hp : Cuts settings count p) (hg : ∀ b, blockNotices (g b) = blockNotices b) :
    Cuts settings count (do
      let body ← p
      return g body) := by
  intro s b s' h
  simp only [runs_bind, runs_pure] at h
  obtain ⟨body, _, hrun, rfl, rfl⟩ := h
  obtain ⟨hwarnings, hcomments⟩ := hp hrun
  exact ⟨hwarnings, by rw [hg, hcomments]⟩

theorem congr {count' : Nat} (h : Cuts settings count p) (heq : count = count') : Cuts settings count' p :=
  heq ▸ h

/-- Entries one after the other leave out what each of them leaves out. -/
theorem each {f : α → Pass Block} {counts : α → Nat} {entries : List α}
    (hf : ∀ entry ∈ entries, Cuts settings (counts entry) (f entry)) :
    Cuts settings (entries.map counts).sum (each f entries) := by
  intro s b s' h
  induction entries generalizing s b with
  | nil =>
    obtain ⟨rfl, rfl⟩ := runs_each_nil.mp h
    simp
  | cons entry rest ih =>
    obtain ⟨first, t, others, hfirst, hrest, rfl⟩ := runs_each_cons.mp h
    obtain ⟨hwarnings, hcomments⟩ := hf entry List.mem_cons_self hfirst
    obtain ⟨hwarnings', hcomments'⟩ := ih (fun entry hentry => hf entry (List.mem_cons_of_mem _ hentry)) hrest
    rw [blockNotices_append, List.map_cons, List.sum_cons]
    omega

end Cuts

theorem skip_cuts {reason : String} (h : isPlain reason = true) (entry : Value) :
    Cuts settings 0 (skip reason entry) := by
  refine .after (.lift _) fun quoted => ?_
  have hplain : isPlain (reason ++ ": " ++ quoted) = true := isPlain_append (isPlain_append h _) _
  refine .after (.warn hplain) fun _ => ?_
  intro s b s' hrun
  simp only [runs_bind, runs_modify, runs_pure] at hrun
  obtain ⟨_, _, rfl, rfl, rfl⟩ := hrun
  exact ⟨rfl, by simp [Item.notices_comment hplain]⟩

end Pass

/-! ## Steps without flows -/

variable {ctx : Context} {step : Step}

theorem bindingsBlock_cuts (bindings : Fields) : Cuts settings 0 (bindingsBlock ctx bindings) := by
  have hfront : isPlain "Skipped variable " = true := isPlain_ofList rfl
  have hentry (entry : Value × Value) : Cuts settings 0 (bindingBlock ctx entry) := by
    unfold bindingBlock
    split
    · exact .afterDeclare fun _ => .after (valueCode_noting ctx _) fun _ => .pure (by simp)
    · refine .after (.lift _) fun spelled => .after (.warn (isPlain_append (isPlain_append hfront _) _)) fun _ => ?_
      refine .pure ?_
      simp [Item.notices_comment (isPlain_append (isPlain_append hfront _) _)]
  exact (Cuts.each fun entry _ => hentry entry).congr (by simp)

theorem importBlock_cuts (imported : Import) (path : String) :
    Cuts settings 0 (importBlock ctx imported path) := by
  have hfront : isPlain "Import '" = true := isPlain_ofList rfl
  refine .after (valueCode_noting ctx _) fun _ => .after (importName_noting _) fun name => ?_
  cases name with
  | some bound =>
    exact .after (importCode_noting _ _ _ _) fun _ => .afterDeclare fun _ => .pure (by simp)
  | none =>
    refine .ite (.after (paramsCode_noting ctx _) fun _ => .pure (by simp)) ?_
    refine .after (importCode_noting _ _ _ _) fun _ => .after (.warn ?_) fun _ => .pure (by simp)
    exact isPlain_append (isPlain_append hfront _) _

theorem documentImport_cuts (entry : Value) : Cuts settings 0 (documentImport ctx entry) := by
  have hfront : isPlain "Skipped invalid import entry: " = true := isPlain_ofList rfl
  unfold documentImport
  split
  · refine .ite (.after (importName_noting _) fun name => ?_) (importBlock_cuts _ _)
    cases name with
    | some bound => exact .afterDeclare fun _ => .after (valueCode_noting ctx _) fun _ => .pure (by simp)
    | none => exact importBlock_cuts _ _
  · refine .after (.lift _) fun quoted => .after (.warn (isPlain_append hfront _)) fun _ => .pure ?_
    simp [Item.notices_comment (isPlain_append hfront quoted)]

theorem stagesBlock_cuts (output data : String) (stages : List Stage) :
    Cuts settings 0 (stagesBlock ctx output data stages) := by
  intro s b s' h
  induction stages generalizing data s b with
  | nil =>
    obtain ⟨rfl, rfl⟩ := runs_pure.mp h
    simp
  | cons stage rest ih =>
    simp only [stagesBlock, runs_bind, runs_pure] at h
    obtain ⟨code, t, hcode, others, _, hrest, rfl, rfl⟩ := h
    have hstage := (stageCode_noting ctx stage data hcode).notices settings
    obtain ⟨hwarnings, hcomments⟩ := ih output hrest
    exact ⟨by omega, by simpa using hcomments⟩

theorem unknownOperations_cuts (entries : List Value) : Cuts settings 0 (each unknownOperation entries) := by
  have hwarning : isPlain "Skipped unrecognized data_transform operation: " = true :=
    isPlain_ofList rfl
  have hcomment : isPlain "Skipped unrecognized operation: " = true := isPlain_ofList rfl
  have hentry (entry : Value) : Cuts settings 0 (unknownOperation entry) := by
    refine .after (.lift _) fun quoted => .after (.warn (isPlain_append hwarning _)) fun _ => .pure ?_
    simp [Item.notices_comment (isPlain_append hcomment quoted)]
  exact (Cuts.each fun entry _ => hentry entry).congr (by simp)

theorem transformBlock_cuts (step : Step) : Cuts settings 0 (transformBlock ctx step) := by
  have hskip : isPlain "Invalid data_transform step" = true := isPlain_ofList rfl
  refine .after (.lift _) fun transform => ?_
  cases transform with
  | none => exact skip_cuts hskip _
  | some transform =>
    refine .after (targetName_noting _ _ _) fun output => .after (sourceCode_noting ctx _ _) fun source => ?_
    intro s b s' h
    simp only [runs_bind] at h
    obtain ⟨comments, t, hcomments, _, _, hdeclare, h⟩ := h
    obtain rfl := runs_modify.mp hdeclare
    have hunknown : Cuts settings 0 (each unknownOperation transform.unknown) := unknownOperations_cuts _
    obtain ⟨hwarnings, hnone⟩ := hunknown hcomments
    split_ifs at h
    · obtain ⟨rfl, rfl⟩ := runs_pure.mp h
      exact ⟨hwarnings, by simpa using hnone⟩
    · simp only [runs_bind, runs_pure] at h
      obtain ⟨assignments, _, hstages, rfl, rfl⟩ := h
      have hassigned : Cuts settings 0 (stagesBlock ctx output source transform.stages) := stagesBlock_cuts _ _ _
      obtain ⟨hwarnings', hnone'⟩ := hassigned hstages
      exact ⟨hwarnings'.trans hwarnings, by rw [blockNotices_append, hnone, hnone']⟩

theorem useBlock_cuts (step : Step) : Cuts settings 0 (useBlock ctx step) := by
  have hskip : isPlain "Invalid use step" = true := isPlain_ofList rfl
  have hrest (reference : Pass String) (hr : Noting reference) : Cuts settings 0 (do
      let reference ← reference
      let params ← paramsCode ctx (Use.ofStep step).params
      return [.line (.evaluate (ctx.agent.runFlow reference params))]) :=
    .after hr fun _ => .after (paramsCode_noting ctx _) fun _ => .pure (by simp)
  unfold useBlock
  dsimp only
  split
  · exact skip_cuts hskip _
  · refine .after .get fun _ => ?_
    split
    · exact hrest _ (.pure _)
    · exact .ite (hrest _ (.pure _)) (hrest _ (valueCode_noting ctx _))

theorem callBlock_cuts (step : Step) : Cuts settings 0 (callBlock ctx step) := by
  have hskip : isPlain "Invalid external_call step" = true := isPlain_ofList rfl
  have hbind {call : Call} {expression : Pass String} (hq : Noting expression) :
      Cuts settings 0 (bindCall call expression) :=
    .after hq fun _ => .after (targetName_noting _ _ _) fun _ => .afterDeclare fun _ => .pure (by simp)
  refine .after (.lift _) fun call => ?_
  cases call with
  | none => exact skip_cuts hskip _
  | some call =>
    exact .ite (hbind (requestCode_noting ctx call))
      (.ite (hbind (commandCode_noting ctx call)) (skip_cuts hskip _))

theorem actionBlock_cuts (step : Step) : Cuts settings 0 (actionBlock ctx step) := by
  have hskip : isPlain "Unrecognized step" = true := isPlain_ofList rfl
  have hpause (duration : Value) : Cuts settings 0 (pause ctx duration) := by
    refine .after (.requireImport _) fun _ => .after (.lift _) fun seconds => ?_
    cases seconds with
    | some seconds => exact .pure (by simp)
    | none => exact .after (valueCode_noting ctx _) fun _ => .pure (by simp)
  unfold actionBlock
  split
  · exact skip_cuts hskip _
  · refine .ite (hpause _) (.after (arguments_noting ctx _) fun _ => ?_)
    dsimp only
    split
    · exact .pure (by simp)
    · exact .after (targetName_noting _ _ _) fun _ => .afterDeclare fun _ => .pure (by simp)

/-! ## Steps with flows -/

/-- The flows that the rule of a step compiles. -/
def compiledFlows (step : Step) : List Flow :=
  if step.isSkipped then []
  else if step.kind == .logic && ((step.get "logic").field "else").isNull then
    [((step.get "logic").field "then").items]
  else constructFlows step

theorem hoist_cuts (names : List String) : Cuts settings 0 (hoist names) := by
  induction names with
  | nil => exact .pure (by simp)
  | cons name rest ih =>
    refine .after .get fun _ => .afterDeclare fun _ => ih.wrap fun others => ?_
    split <;> simp

theorem declareAll_silent {names : List String} {s s' : State} {u : Unit} (h : (declareAll names).Runs s u s') :
    s'.warnings = s.warnings := by
  induction names generalizing s with
  | nil =>
    obtain ⟨-, rfl⟩ := runs_pure.mp h
    rfl
  | cons name rest ih =>
    obtain ⟨_, _, hdeclare, hrest⟩ := runs_bind.mp h
    obtain rfl := runs_modify.mp hdeclare
    exact (ih hrest :)

section Nested

variable {nested : Flow → Pass Block} {count : Flow → Nat}
  (hnested : ∀ flow, Cuts settings (count flow) (nested flow))

include hnested

theorem conditionalBlock_cuts (hk : step.kind = .logic) :
    Cuts settings ((compiledFlows step).map count).sum (conditionalBlock ctx nested step) := by
  have hskip : isPlain "Invalid logic step" = true := isPlain_ofList rfl
  unfold conditionalBlock compiledFlows
  by_cases hcondition : ((step.get "logic").field "if").isNull = true
  · have hskipped : step.isSkipped = true := by simp [Step.isSkipped, hk, hcondition]
    simp only [hcondition, hskipped, if_true]
    exact skip_cuts hskip _
  · have hskipped : step.isSkipped = false := by simpa [Step.isSkipped, hk] using hcondition
    simp only [hcondition, hskipped]
    refine .after (valueCode_noting ctx _) fun condition => ?_
    intro s b s' h
    obtain ⟨yes, t, hyes, h⟩ := runs_bind.mp h
    obtain ⟨hwarnings, hcomments⟩ := hnested _ hyes
    by_cases helse : ((step.get "logic").field "else").isNull = true
    · simp only [helse, if_true] at h
      obtain ⟨rfl, rfl⟩ := runs_pure.mp h
      simp [hk, helse, hwarnings, hcomments]
    · simp only [helse] at h
      obtain ⟨no, _, hno, h⟩ := runs_bind.mp h
      obtain ⟨rfl, rfl⟩ := runs_pure.mp h
      obtain ⟨hwarnings', hcomments'⟩ := hnested _ hno
      have hflows : constructFlows step =
          [((step.get "logic").field "then").items, ((step.get "logic").field "else").items] := by
        simp [constructFlows, hk]
      simp only [helse, Bool.and_false, Bool.false_eq_true, if_false, hflows, List.map_cons, List.map_nil,
        List.sum_cons, List.sum_nil, blockNotices_cons, blockNotices_nil, Item.notices_block, notices_filled]
      omega

theorem forBlock_cuts (loop : Loop) : Cuts settings (count loop.flow) (forBlock ctx nested loop) := by
  refine .after (collectionCode_noting ctx _) fun items => .after (targetName_noting _ _ _) fun item => ?_
  refine .afterDeclare fun _ => .ite ?_ ?_
  · exact (hnested loop.flow).wrap (by simp)
  · refine .after (targetName_noting _ _ _) fun index => .afterDeclare fun _ => ?_
    exact (hnested loop.flow).wrap (by simp)

theorem whileBlock_cuts (loop : Loop) : Cuts settings (count loop.flow) (whileBlock ctx nested loop) := by
  have hrest (counter : String) : Cuts settings (count loop.flow) (do
      let bound ←
        if loop.maxIterations.isNull then liftM ctx.settings.defaultMaxIterations.spelled
        else countCode ctx loop.maxIterations
      let condition ← valueCode ctx loop.condition
      let body ← nested loop.flow
      return [.line (.start counter), .block (.bounded counter bound (ctx.agent.check condition))
        (body ++ [.line (.increment counter)])]) := by
    refine .ite ?_ ?_
    · refine .after (.lift _) fun bound => .after (valueCode_noting ctx _) fun condition => ?_
      exact (hnested loop.flow).wrap (by simp)
    · refine .after (countCode_noting ctx _) fun bound => .after (valueCode_noting ctx _) fun condition => ?_
      exact (hnested loop.flow).wrap (by simp)
  refine .afterSilent (fun h => ?_) hrest
  unfold counterName declareFresh declare at h
  split at h
  · simp only [runs_bind, runs_modify, runs_pure] at h
    obtain ⟨_, _, rfl, -, rfl⟩ := h
    rfl
  · simp only [runs_bind, runs_get, runs_modify, runs_pure] at h
    obtain ⟨_, _, ⟨-, rfl⟩, _, _, rfl, -, rfl⟩ := h
    rfl

theorem repeatBlock_cuts (loop : Loop) : Cuts settings (count loop.flow) (repeatBlock ctx nested loop) := by
  have hrest (index : String) : Cuts settings (count loop.flow) (do
      declare index
      let count ← countCode ctx loop.count
      let body ← nested loop.flow
      return [.block (.counted index count) (filled body)]) := by
    refine .afterDeclare fun _ => .after (countCode_noting ctx _) fun _ => ?_
    exact (hnested loop.flow).wrap (by simp)
  exact .ite (.after (.pure _) fun _ => hrest _) (.after (targetName_noting _ _ _) fun _ => hrest _)

theorem loopBlock_cuts (hk : step.kind = .loop) :
    Cuts settings ((compiledFlows step).map count).sum (loopBlock ctx nested step) := by
  have hinvalid : isPlain "Invalid loop step" = true := isPlain_ofList rfl
  have hmissing (kind field : String) : isPlain (missing kind field) = true := by
    have hfront : isPlain "Loop of type '" = true := isPlain_ofList rfl
    exact isPlain_append (isPlain_append (isPlain_append (isPlain_append hfront _) _) _) _
  unfold loopBlock
  cases hr : Loop.read? step with
  | none =>
    have hskipped : step.isSkipped = true := by simp [Step.isSkipped, hk, hr]
    simp only [compiledFlows, hskipped, if_true]
    exact skip_cuts hinvalid _
  | some loop =>
    have hflows : ((compiledFlows step).map count).sum = if Step.isLoop loop then count loop.flow else 0 := by
      cases hloop : Step.isLoop loop <;> simp [compiledFlows, constructFlows, Step.isSkipped, hk, hr, hloop]
    have hchoice (lacks : Bool) (reason : String) (p : Pass Block) (hloop : Step.isLoop loop = !lacks)
        (hreason : isPlain reason = true) (hp : Cuts settings (count loop.flow) p) :
        Cuts settings ((compiledFlows step).map count).sum
          (if lacks = true then skip reason (.map step) else p) := by
      rw [hflows, hloop]
      cases lacks with
      | false => exact hp
      | true => exact skip_cuts hreason _
    dsimp only
    split
    case h_1 hkind =>
      refine hchoice _ _ _ ?_ (hmissing _ _) (forBlock_cuts hnested loop)
      simp [Step.isLoop, hkind]
    case h_2 hkind =>
      refine hchoice _ _ _ ?_ (hmissing _ _) (whileBlock_cuts hnested loop)
      simp [Step.isLoop, hkind]
    case h_3 hkind =>
      refine hchoice _ _ _ ?_ (hmissing _ _) (repeatBlock_cuts hnested loop)
      simp [Step.isLoop, hkind]
    case h_4 hfor hwhile hrepeat =>
      have hloop : Step.isLoop loop = false := by
        unfold Step.isLoop
        split
        case h_1 hkind => exact (hfor hkind).elim
        case h_2 hkind => exact (hwhile hkind).elim
        case h_3 hkind => exact (hrepeat hkind).elim
        case h_4 => rfl
      rw [hflows, hloop]
      exact skip_cuts hinvalid _

theorem handlerBlock_cuts (guard : Guard) :
    Cuts settings (guard.handler.elim 0 count) (handlerBlock nested guard) := by
  have hwarning : isPlain "Try block without catch or finally; errors are silently ignored" = true :=
    isPlain_ofList rfl
  unfold handlerBlock
  cases guard.handler with
  | some flow =>
    refine .after (targetName_noting _ _ _) fun _ => .afterDeclare fun _ => ?_
    exact (hnested flow).wrap (by simp)
  | none => exact .ite (.pure (by simp)) (.after (.warn hwarning) fun _ => .pure (by simp))

theorem cleanupBlock_cuts (guard : Guard) :
    Cuts settings (guard.cleanup.elim 0 count) (cleanupBlock nested guard) := by
  unfold cleanupBlock
  cases guard.cleanup with
  | some flow => exact (hnested flow).wrap (by simp)
  | none => exact .pure (by simp)

theorem guardBlock_cuts (hk : step.kind = .guarded) :
    Cuts settings ((compiledFlows step).map count).sum (guardBlock nested step) := by
  have hwarning : isPlain "Try block without a flow; generating an empty try body" = true :=
    isPlain_ofList rfl
  have hflows : ((compiledFlows step).map count).sum = count ((Guard.read step).body.getD []) +
      ((Guard.read step).handler.elim 0 count + (Guard.read step).cleanup.elim 0 count) := by
    simp only [compiledFlows, Step.isSkipped, constructFlows, hk]
    cases (Guard.read step).handler <;> cases (Guard.read step).cleanup <;> simp
  have hrest : Cuts settings ((compiledFlows step).map count).sum (do
      let body ← nested ((Guard.read step).body.getD [])
      let handler ← handlerBlock nested (Guard.read step)
      let cleanup ← cleanupBlock nested (Guard.read step)
      return .block .attempt (filled body) :: (handler ++ cleanup)) := by
    intro s b s' h
    simp only [runs_bind, runs_pure] at h
    obtain ⟨body, s₁, hbody, handler, s₂, hhandler, cleanup, _, hcleanup, rfl, rfl⟩ := h
    obtain ⟨hwarned, hleft⟩ := hnested _ hbody
    obtain ⟨hwarned', hleft'⟩ := handlerBlock_cuts hnested _ hhandler
    obtain ⟨hwarned'', hleft''⟩ := cleanupBlock_cuts hnested _ hcleanup
    simp only [blockNotices_cons, blockNotices_append, Item.notices_block, notices_filled]
    omega
  exact .ite (.after (.warn hwarning) fun _ => hrest) hrest

theorem branchBlock_cuts (merges : Bool) (group : Nat) (branch : NamedBranch) :
    Cuts settings (count branch.branch.flow) (branchBlock nested merges group branch) := by
  intro s b s' h
  simp only [branchBlock, keepScope, runs_bind, runs_get, runs_modify, runs_pure] at h
  obtain ⟨body, _, ⟨_, _, ⟨-, rfl⟩, _, t, hbody, _, _, rfl, rfl, rfl⟩, ending, _, hending, rfl, rfl⟩ := h
  obtain ⟨hwarned, hleft⟩ := hnested _ hbody
  have hend : Cuts settings 0 (branchEnd merges branch.branch.flow branch.names body) := by
    refine .ite (.after (.lift _) fun _ => .pure (by simp)) (.pure ?_)
    split <;> simp
  obtain ⟨hwarned', hleft'⟩ := hend hending
  have hheader : blockNotices (if branch.names.isEmpty then [] else [.line (.nonlocals branch.names)]) = 0 := by
    split <;> simp
  have hsame : s'.notices settings = t.notices settings := hwarned'
  simp only [blockNotices_cons, blockNotices_append, blockNotices_nil, Item.notices_block, Item.notices_blank,
    hheader, hleft, hleft']
  omega

theorem groupBlock_cuts (parallel : Parallel) :
    Cuts settings (parallel.branches.map fun branch => count branch.flow).sum
      (groupBlock ctx nested parallel) := by
  have hgroup {s t : State} {group : Nat} (h : nextGroup.Runs s group t) : t.warnings = s.warnings := by
    simp only [nextGroup, runs_bind, runs_get, runs_modify, runs_pure] at h
    obtain ⟨_, _, rfl, _, _, ⟨-, rfl⟩, -, rfl⟩ := h
    rfl
  refine .after (.requireHelper _) fun _ => .afterSilent hgroup fun group => ?_
  intro s b s' h
  simp only [runs_bind, runs_lift, runs_pure] at h
  obtain ⟨named, _, ⟨hnamed, rfl⟩, hoisted, t, hhoist, functions, u, hfunctions, _, _, hdeclare, rfl, rfl⟩ := h
  have hcounts : (named.map fun branch => count branch.branch.flow).sum =
      (parallel.branches.map fun branch => count branch.flow).sum := by
    rw [← (nameBranches_spec hnamed).1, List.map_map]
    rfl
  have hnames : Cuts settings 0 (hoist (named.flatMap (·.names))) := hoist_cuts _
  obtain ⟨hwarned, hleft⟩ := hnames hhoist
  have hbranches := Cuts.each fun branch (_ : branch ∈ named) =>
    branchBlock_cuts hnested parallel.merges group branch
  obtain ⟨hwarned', hleft'⟩ := hbranches hfunctions
  have hblank : blockNotices (if hoisted.isEmpty then [] else [.blank]) = 0 := by
    split <;> simp
  have hsame : s'.notices settings = u.notices settings := by
    rw [State.notices, declareAll_silent hdeclare, State.notices]
  simp only [blockNotices_append, blockNotices_cons, blockNotices_nil, Item.notices_line, hblank]
  omega

theorem parallelBlock_cuts (hk : step.kind = .parallel) :
    Cuts settings ((compiledFlows step).map count).sum (parallelBlock ctx nested step) := by
  have hskip : isPlain "Invalid parallel step" = true := isPlain_ofList rfl
  have hwarning : isPlain "Parallel group without branches was skipped" = true :=
    isPlain_ofList rfl
  have hcomment : isPlain "Empty parallel group" = true := isPlain_ofList rfl
  unfold parallelBlock
  cases hr : Parallel.read? step with
  | none =>
    have hskipped : step.isSkipped = true := by simp [Step.isSkipped, hk, hr]
    simp only [compiledFlows, hskipped, if_true]
    exact skip_cuts hskip _
  | some parallel =>
    have hflows : ((compiledFlows step).map count).sum =
        (parallel.branches.map fun branch => count branch.flow).sum := by
      simp [compiledFlows, constructFlows, Step.isSkipped, hk, hr, Function.comp_def]
    rw [hflows]
    dsimp only
    split_ifs with hempty
    · rw [List.isEmpty_iff.mp hempty]
      exact .after (.warn hwarning) fun _ => .pure (by simp [Item.notices_comment hcomment])
    · exact groupBlock_cuts hnested parallel

theorem stepBlock_cuts (step : Step) :
    Cuts settings ((compiledFlows step).map count).sum (stepBlock ctx nested step) := by
  have hvariables : isPlain "Invalid variables step" = true := isPlain_ofList rfl
  have himport : isPlain "Invalid import step" = true := isPlain_ofList rfl
  have hunknown : isPlain "Unrecognized step" = true := isPlain_ofList rfl
  have hleaf (h : constructFlows step = []) (hlogic : step.kind ≠ .logic) {p : Pass Block}
      (hp : Cuts settings 0 p) : Cuts settings ((compiledFlows step).map count).sum p :=
    hp.congr (by simp [compiledFlows, h, hlogic])
  unfold stepBlock
  split
  case h_1 hk =>
    refine hleaf (by simp [constructFlows, hk]) (by simp [hk]) ?_
    unfold variablesBlock
    split
    · exact bindingsBlock_cuts _
    · exact skip_cuts hvariables _
  case h_2 hk => exact conditionalBlock_cuts hnested hk
  case h_3 hk => exact loopBlock_cuts hnested hk
  case h_4 hk =>
    refine hleaf (by simp [constructFlows, hk]) (by simp [hk]) ?_
    unfold importStepBlock
    dsimp only
    split
    · exact importBlock_cuts _ _
    · exact skip_cuts himport _
  case h_5 hk => exact hleaf (by simp [constructFlows, hk]) (by simp [hk]) (transformBlock_cuts step)
  case h_6 hk => exact guardBlock_cuts hnested hk
  case h_7 hk => exact hleaf (by simp [constructFlows, hk]) (by simp [hk]) (callBlock_cuts step)
  case h_8 hk => exact parallelBlock_cuts hnested hk
  case h_9 hk => exact hleaf (by simp [constructFlows, hk]) (by simp [hk]) (useBlock_cuts step)
  case h_10 hk => exact hleaf (by simp [constructFlows, hk]) (by simp [hk]) (actionBlock_cuts step)
  case h_11 hk => exact hleaf (by simp [constructFlows, hk]) (by simp [hk]) (skip_cuts hunknown _)

theorem entryOfFlow_cuts (entry : Value) :
    Cuts settings (entry.step?.elim 0 fun step => ((compiledFlows step).map count).sum)
      (entryOfFlow ctx nested entry) := by
  have hskip : isPlain "Skipped invalid step" = true := isPlain_ofList rfl
  unfold entryOfFlow
  cases entry.step? with
  | none => exact skip_cuts hskip entry
  | some step =>
    refine .afterSilent (fun h => ?_) fun _ => stepBlock_cuts hnested step
    obtain rfl := runs_modify.mp h
    rfl

end Nested

/-! ## Flows -/

/-- How many flows are left out of a flow of which the given number of levels may be entered. -/
def cutFlows : Nat → Flow → Nat
  | 0, _ => 1
  | levels + 1, flow => (flow.map fun entry =>
      entry.step?.elim 0 fun step => ((compiledFlows step).map (cutFlows levels)).sum).sum

theorem flowBlock_cuts (ctx : Context) (levels : Nat) (flow : Flow) :
    Cuts ctx.settings (cutFlows levels flow) (flowBlock ctx levels flow) := by
  induction levels generalizing flow with
  | zero =>
    intro s b s' h
    simp only [flowBlock, runs_bind, runs_lift, runs_pure] at h
    obtain ⟨_, _, ⟨hshown, rfl⟩, _, _, hwarn, rfl, rfl⟩ := h
    obtain ⟨-, rfl⟩ := Value.shown_eq_ok_iff.mp hshown
    obtain rfl := runs_modify.mp hwarn
    have hnotice : (Item.comment limitNotice).notices = 1 := by rw [Item.notices, if_pos rfl]
    constructor
    · change (s.warnings ++ [limitWarning ctx.settings]).count (limitWarning ctx.settings) = _
      rw [List.count_append, List.count_singleton_self]
      rfl
    · change blockNotices [.comment limitNotice] = 1
      rw [blockNotices_cons, hnotice, blockNotices_nil]
  | succ levels ih =>
    rw [cutFlows, flowBlock]
    exact Cuts.each fun entry _ => entryOfFlow_cuts ih entry

/-! ## Documents -/

/-- The flow of a task and how many levels of it are compiled. -/
def taskRun? (settings : Settings) (task : Value) : Option (Flow × Nat) :=
  task.taskFlow?.bind fun flow => (levelsFrom settings (taskLevel task)).toOption.map fun levels => (flow, levels)

/-- How many flows are left out of a task. -/
def cutTask (settings : Settings) (task : Value) : Nat :=
  (taskRun? settings task).elim 0 fun run => cutFlows run.2 run.1

theorem taskRun?_eq_some {settings : Settings} {task : Value} {flow : Flow} {levels : Nat} :
    taskRun? settings task = some (flow, levels) ↔
      task.taskFlow? = some flow ∧ levelsFrom settings (taskLevel task) = .ok levels := by
  unfold taskRun?
  cases task.taskFlow? with
  | none => simp
  | some own =>
    cases levelsFrom settings (taskLevel task) <;> simp [Except.toOption]

/-- The flow of a task is compiled at the level where it starts. -/
theorem flowAt_of_taskFlowBlock {task : Value} {name : String} {flow : Flow} {s s' : State} {b : Block}
    (hflow : task.taskFlow? = some flow) (h : (taskFlowBlock ctx task name flow).Runs s b s') :
    ∃ levels t body, taskRun? ctx.settings task = some (flow, levels) ∧ s.Notes t ∧
      (flowBlock ctx levels flow).Runs t body s' ∧ blockNotices b = blockNotices body := by
  have hrun : ∃ t body, s.Notes t ∧ (flowAt ctx (taskLevel task) flow).Runs t body s' ∧
      blockNotices b = blockNotices body := by
    rw [taskFlowBlock_eq] at h
    split_ifs at h
    · simp only [runs_bind, runs_pure] at h
      obtain ⟨_, t, hlogger, body, _, hbody, rfl, rfl⟩ := h
      exact ⟨t, body, Noting.requireHelper _ hlogger, hbody, by simp [isolated]⟩
    · exact ⟨s, b, .refl s, h, rfl⟩
  obtain ⟨t, body, hnotes, hbody, hsame⟩ := hrun
  simp only [flowAt, runs_bind, runs_lift] at hbody
  obtain ⟨levels, _, ⟨hlevels, rfl⟩, hbody⟩ := hbody
  exact ⟨levels, _, body, taskRun?_eq_some.mpr ⟨hflow, hlevels⟩, hnotes, hbody, hsame⟩

theorem outputBlock_cuts (output : Value) : Cuts settings 0 (outputBlock ctx output) := by
  intro s b s' h
  refine ⟨(outputBlock_noting ctx output h).notices settings, ?_⟩
  unfold outputBlock at h
  dsimp only at h
  split_ifs at h
  · simp [(runs_pure.mp h).1]
  · obtain ⟨_, _, -, h⟩ := runs_bind.mp h
    simp [(runs_pure.mp h).1]
  · split at h
    · simp only [runs_bind, runs_pure] at h
      obtain ⟨_, _, -, _, _, -, rfl, -⟩ := h
      simp
    · simp only [runs_bind, runs_pure] at h
      obtain ⟨_, _, -, _, _, -, rfl, -⟩ := h
      simp

theorem taskBlock_cuts (ctx : Context) (total : Nat) (numbered : Value × Nat) :
    Cuts ctx.settings (cutTask ctx.settings numbered.1) (taskBlock ctx total numbered) := by
  have hwarning : isPlain "Skipped task '" = true := isPlain_ofList rfl
  have hcomment : isPlain "Skipped task " = true := isPlain_ofList rfl
  have htitle (name : String) : blockNotices (taskTitle name numbered.2 total) = 0 := by
    have hfront : isPlain "--- " = true := isPlain_ofList rfl
    have hplain : isPlain ("--- " ++ name ++ " ---") = true := isPlain_append (isPlain_append hfront _) _
    unfold taskTitle
    split_ifs <;> simp [Item.notices_comment hplain]
  unfold taskBlock
  cases hflow : numbered.1.taskFlow? with
  | none =>
    have hnone : cutTask ctx.settings numbered.1 = 0 := by simp [cutTask, taskRun?, hflow]
    rw [hnone]
    refine .after (.warn (isPlain_append (isPlain_append hwarning _) _)) fun _ => .pure ?_
    simp [htitle, Item.notices_comment (isPlain_append (isPlain_append hcomment _) _)]
  | some flow =>
    intro s b s' h
    simp only [runs_bind, runs_pure] at h
    obtain ⟨body, t, hbody, output, _, houtput, rfl, rfl⟩ := h
    obtain ⟨levels, u, inner, hrun, hnotes, hflowBlock, hsame⟩ := flowAt_of_taskFlowBlock hflow hbody
    have hstart := hnotes.notices ctx.settings
    obtain ⟨hwarned, hleft⟩ := flowBlock_cuts ctx levels flow hflowBlock
    have hwritten : Cuts ctx.settings 0 (outputBlock ctx (numbered.1.field "output")) := outputBlock_cuts _
    obtain ⟨hwarned', hleft'⟩ := hwritten houtput
    have hcut : cutTask ctx.settings numbered.1 = cutFlows levels flow := by rw [cutTask, hrun, Option.elim_some]
    rw [hcut, blockNotices_append, blockNotices_append, htitle]
    omega

/-- The flows that are left out of a document are those left out of its tasks. -/
theorem documentBlock_cuts (ctx : Context) (document : Fields) : Cuts ctx.settings
    (((document.get "tasks").items.map (cutTask ctx.settings)).sum) (documentBlock ctx document) := by
  have himports : Cuts ctx.settings 0 (documentImports ctx (document.get "import")) :=
    (Cuts.each fun entry _ => documentImport_cuts entry).congr (by simp)
  have hbindings (bindings : Fields) : Cuts ctx.settings 0 (bindingsBlock ctx bindings) := bindingsBlock_cuts _
  have htasks (total : Nat) : Cuts ctx.settings ((document.get "tasks").items.map (cutTask ctx.settings)).sum
      (each (taskBlock ctx total) (document.get "tasks").items.zipIdx) := by
    refine (Cuts.each fun numbered _ => taskBlock_cuts ctx total numbered).congr ?_
    conv_rhs => rw [← List.zipIdx_map_fst 0 (document.get "tasks").items, List.map_map]
    rfl
  intro s b s' h
  simp only [documentBlock, prologue, runs_bind, runs_pure] at h
  obtain ⟨first, t, ⟨imports, s₁, hi, globals, _, hg, rfl, rfl⟩, body, _, hbody, rfl, rfl⟩ := h
  obtain ⟨hwarned, hleft⟩ := himports hi
  obtain ⟨hwarned', hleft'⟩ := hbindings _ hg
  obtain ⟨hwarned'', hleft''⟩ := htasks _ hbody
  have hfirst : blockNotices (if (imports ++ globals).isEmpty then [] else imports ++ globals ++ [.blank]) = 0 := by
    split <;> simp [hleft, hleft']
  rw [blockNotices_append, hfirst]
  omega

end FlowScript.Program
