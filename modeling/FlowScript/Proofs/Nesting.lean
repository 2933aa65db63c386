import FlowScript.Proofs.Defined
import FlowScript.Proofs.Flagged
import FlowScript.Proofs.Notices

/-!
# Two limits on nesting

Validation counts the levels that its walk enters, a program the levels of its indentation. A document in
which validation finds neither an error nor a missing flow has the same flows for both of them. Where
validation also meets no limit, the program still leaves flows out of the tasks that start at the second
level of indentation and use all levels of the walk.
-/
namespace FlowScript

open Construct Validation Program Program.Pass

/-! ## What a check without findings says about the flows of a step -/

namespace Validation

/-- The warnings that a flow is missing. -/
def missingFlowMessages : List String :=
  ["'loop' is missing a 'flow' or 'steps' list.", "Parallel branch has no 'flow' or 'steps' list."]

/-- Neither an error nor a warning that a flow is missing. -/
def keepsFlows (d : Diagnostic) : Bool := !d.isError && !missingFlowMessages.contains d.message

/-- The warning that a walk goes no deeper. -/
def nestingWarning (settings : Settings) (path : String) : Diagnostic :=
  safetyWarning ("Nesting exceeds " ++ settings.maxWalkDepth.text ++
    " levels; deeper steps were not validated.") path

variable {settings : Settings} {step : Step} {path : String} {found : List Diagnostic}

theorem not_keepsFlows_error (message location : String) : keepsFlows (constructError message location) = false :=
  rfl

/-- An error that is due only under a condition is not found where the condition fails. -/
theorem eq_false_of_whenever {condition : Bool} {message location : String}
    (h : ∀ d ∈ whenever condition (constructError message location), keepsFlows d = true) :
    condition = false := by
  cases condition with
  | false => rfl
  | true => exact absurd (h _ (List.mem_singleton_self _)) (by simp [not_keepsFlows_error])

theorem logic_of_check (h : ∀ d ∈ checkLogic step path, keepsFlows d = true) :
    ((step.get "logic").field "if").isNull = false ∧
      ∃ steps, ((step.get "logic").field "then").items? = some steps := by
  unfold checkLogic at h
  dsimp only at h
  cases hfields : (step.get "logic").fields? with
  | none =>
    rw [hfields] at h
    simp [not_keepsFlows_error] at h
  | some logic =>
    rw [hfields] at h
    simp only [List.forall_mem_append, checkBranch] at h
    obtain ⟨⟨⟨hif, hthen⟩, hlist⟩, -⟩ := h
    have hnull := eq_false_of_whenever hthen
    have hitems := eq_false_of_whenever hlist
    simp only [hnull, Bool.not_false, Bool.true_and, Bool.not_eq_false', Value.isList, Option.isSome_iff_exists]
      at hitems
    simp only [Value.field, hfields]
    exact ⟨eq_false_of_whenever hif, hitems⟩

theorem condition_of_check {loop : Loop} (hcheck : checkWhile settings loop path = .ok found)
    (h : ∀ d ∈ found, keepsFlows d = true) : loop.condition.isNull = false := by
  have hparts : ∃ more, found = whenever loop.condition.isNull (constructError
      "Loop of type 'while' requires a 'condition' field." (path ++ "/condition")) ++ more := by
    unfold checkWhile at hcheck
    dsimp only at hcheck
    split_ifs at hcheck
    · obtain ⟨shown, -, hshown⟩ := bind_eq_ok.mp hcheck
      exact ⟨_, (Except.ok.inj hshown).symm⟩
    · obtain ⟨more, -, hmore⟩ := bind_eq_ok.mp hcheck
      exact ⟨more, (Except.ok.inj hmore).symm⟩
  obtain ⟨more, rfl⟩ := hparts
  exact eq_false_of_whenever (List.forall_mem_append.mp h).1

theorem isLoop_of_check {loop : Loop} (hcheck : checkLoopKind settings loop path = .ok found)
    (h : ∀ d ∈ found, keepsFlows d = true) : Step.isLoop loop = true := by
  unfold checkLoopKind at hcheck
  unfold Step.isLoop
  split at hcheck
  case h_1 =>
    obtain rfl := Except.ok.inj hcheck
    simp [not_keepsFlows_error] at h
  case h_2 hkind =>
    obtain rfl := Except.ok.inj hcheck
    simp [hkind, eq_false_of_whenever h]
  case h_3 hkind => simp [hkind, condition_of_check hcheck h]
  case h_4 hkind =>
    have hcount : loop.count.isNull = false := by
      rw [Bool.eq_false_iff]
      intro hnull
      simp only [checkRepeat, hnull, if_true] at hcheck
      obtain rfl := Except.ok.inj hcheck
      simp [not_keepsFlows_error] at h
    simp [hkind, hcount]
  case h_5 =>
    obtain rfl := Except.ok.inj hcheck
    simp [not_keepsFlows_error] at h

theorem loop_of_check (hcheck : checkLoop settings step path = .ok found)
    (h : ∀ d ∈ found, keepsFlows d = true) : ∃ es flow, (step.get "loop").fields? = some es ∧
      Step.isLoop (Loop.ofFields es) = true ∧ es.flow? = some flow := by
  unfold checkLoop at hcheck
  dsimp only at hcheck
  cases hfields : (step.get "loop").fields? with
  | none =>
    rw [hfields] at hcheck
    obtain rfl := Except.ok.inj hcheck
    simp [not_keepsFlows_error] at h
  | some es =>
    rw [hfields] at hcheck
    obtain ⟨kinds, hkinds, hcheck⟩ := bind_eq_ok.mp hcheck
    obtain rfl := Except.ok.inj hcheck
    obtain ⟨hloop, hflow⟩ := List.forall_mem_append.mp h
    cases hes : es.flow? with
    | none =>
      have hmissing := hflow _ (by rw [checkLoopFlow, hes]; exact List.mem_singleton_self _)
      exact absurd hmissing (by simp [keepsFlows, missingFlowMessages, constructWarning, Diagnostic.warning])
    | some flow => exact ⟨es, flow, rfl, isLoop_of_check hkinds hloop, hes⟩

theorem body_of_check (h : ∀ d ∈ checkGuard step path, keepsFlows d = true) :
    ∃ flow, (Guard.read step).body = some flow := by
  have hbody := eq_false_of_whenever (List.forall_mem_append.mp h).1
  rwa [Option.isNone_eq_false_iff, Option.isSome_iff_exists] at hbody

theorem branches_of_check (h : ∀ d ∈ checkParallel step path, keepsFlows d = true) :
    ∃ branches, (step.get "parallel").branches? = some branches ∧
      ∀ branch ∈ branches, ∃ flow, branch.flow? = some flow := by
  unfold checkParallel at h
  dsimp only at h
  split_ifs at h with hmap
  · simp [not_keepsFlows_error] at h
  · cases hbranches : (step.get "parallel").branches? with
    | none =>
      rw [hbranches] at h
      simp [not_keepsFlows_error] at h
    | some branches =>
      rw [hbranches] at h
      refine ⟨branches, rfl, fun branch hbranch => ?_⟩
      rw [← Option.isSome_iff_exists]
      by_contra hnone
      obtain ⟨i, hi⟩ := List.mem_iff_getElem?.mp hbranch
      have hmissing := h _ (List.mem_map.mpr ⟨(branch, i), List.mem_filter.mpr ⟨?_, ?_⟩, rfl⟩)
      · exact absurd hmissing (by simp [keepsFlows, missingFlowMessages, constructWarning, Diagnostic.warning])
      · exact List.mk_mem_zipIdx_iff_getElem?.mpr hi
      · simpa using hnone

/-- Where a step is found to be in order, its rule compiles a flow exactly if the walk finds one. -/
theorem compiledFlows_eq_nil_iff (hcheck : checkStep settings step path = .ok found)
    (h : ∀ d ∈ found, keepsFlows d = true) : compiledFlows step = [] ↔ step.nestedFlows = [] := by
  have hconstruct (hskip : step.isSkipped = false) (hk : step.kind ≠ .logic) :
      compiledFlows step = constructFlows step := by
    simp [compiledFlows, hskip, hk]
  have hleaf (hconstruct : constructFlows step = []) (hnested : step.nestedFlows = []) (hk : step.kind ≠ .logic) :
      compiledFlows step = [] ↔ step.nestedFlows = [] := by
    simp [compiledFlows, hconstruct, hnested, hk]
  unfold checkStep at hcheck
  split at hcheck
  case h_2 hk =>
    obtain rfl := Except.ok.inj hcheck
    obtain ⟨hif, steps, hthen⟩ := logic_of_check h
    have hskip : step.isSkipped = false := by simp [Step.isSkipped, hk, hif]
    have hcompiled : compiledFlows step ≠ [] := by
      rw [compiledFlows, if_neg (by simp [hskip])]
      split_ifs
      · simp
      · simp [constructFlows, hk]
    have hnested : step.nestedFlows ≠ [] := by simp [Step.nestedFlows, hk, hthen, Step.child?]
    simp [hcompiled, hnested]
  case h_3 hk =>
    obtain ⟨es, flow, hes, hloop, hflow⟩ := loop_of_check hcheck h
    have hskip : step.isSkipped = false := by simp [Step.isSkipped, hk, Loop.read?, hes, hloop]
    have hnested : step.nestedFlows ≠ [] := by
      simp [Step.nestedFlows, hk, Value.flow?, items?_of_fields? hes, hes, hflow, Step.child?]
    rw [hconstruct hskip (by simp [hk])]
    simp [constructFlows, hk, Loop.read?, hes, hnested]
  case h_6 hk =>
    obtain rfl := Except.ok.inj hcheck
    obtain ⟨flow, hbody⟩ := body_of_check h
    have hflow : step.guardBlocks.body.flow? = some flow := hbody
    have hskip : step.isSkipped = false := by simp [Step.isSkipped, hk]
    have hnested : step.nestedFlows ≠ [] := by simp [Step.nestedFlows, hk, hflow, Step.child?]
    rw [hconstruct hskip (by simp [hk])]
    simp [constructFlows, hk, hnested]
  case h_8 hk =>
    obtain rfl := Except.ok.inj hcheck
    obtain ⟨branches, hbranches, hflows⟩ := branches_of_check h
    have hskip : step.isSkipped = false := by simp [Step.isSkipped, hk, Parallel.read?, hbranches]
    rw [hconstruct hskip (by simp [hk])]
    simp only [constructFlows, Step.nestedFlows, hk, Parallel.read?, hbranches]
    cases branches with
    | nil => simp
    | cons branch rest =>
      obtain ⟨flow, hflow⟩ := hflows branch List.mem_cons_self
      simp [hflow, Step.child?]
  all_goals
    rename_i hk
    exact hleaf (by simp [constructFlows, hk]) (by simp [Step.nestedFlows, hk]) (by simp [hk])

end Validation

/-! ## Walks that meet a limit -/

namespace Flow

variable {levels : Nat} {flow : Flow} {start path : String}

theorem limit_mem_walk_succ : .limit path ∈ flow.walk (fun _ => true) (levels + 1) start ↔
    ∃ n ∈ flow.zipIdx, ∃ step, n.1.step? = some step ∧ ∃ child ∈ step.nestedFlows,
      .limit path ∈ child.flow.walk (fun _ => true) levels (Value.itemPath start n.2 ++ child.suffix) := by
  rw [walk_succ, List.mem_flatMap]
  refine exists_congr fun n => and_congr_right fun _ => ?_
  cases n.1.step? with
  | none => simp
  | some step => simp

/-- Where a walk starts does not matter for whether it meets a limit. -/
theorem no_limit_congr (other : String) (h : ∀ path, .limit path ∉ flow.walk (fun _ => true) levels start)
    (path : String) : .limit path ∉ flow.walk (fun _ => true) levels other := by
  induction levels generalizing flow start other path with
  | zero => exact absurd List.mem_cons_self (h start)
  | succ levels ih =>
    rw [limit_mem_walk_succ]
    rintro ⟨n, hn, step, hstep, child, hchild, hpath⟩
    have hbelow : ∀ place, .limit place ∉ child.flow.walk (fun _ => true) levels
        (Value.itemPath start n.2 ++ child.suffix) := fun place hplace =>
      h place (limit_mem_walk_succ.mpr ⟨n, hn, step, hstep, child, hchild, hplace⟩)
    exact ih _ hbelow path hpath

theorem within_iff : flow.Within levels ↔ ∀ path, .limit path ∉ flow.walk (fun _ => true) levels start :=
  ⟨no_limit_congr start, no_limit_congr ""⟩

theorem not_within_zero : ¬ flow.Within 0 := fun h => h "" List.mem_cons_self

/-- A flow exceeds the levels if some flow of one of its steps exceeds one level less. -/
theorem not_within_succ : ¬ flow.Within (levels + 1) ↔
    ∃ entry ∈ flow, ∃ step, entry.step? = some step ∧ ∃ child ∈ step.nestedFlows, ¬ child.flow.Within levels := by
  constructor
  · intro h
    simp only [Within, not_forall, not_not] at h
    obtain ⟨path, hpath⟩ := h
    obtain ⟨n, hn, step, hstep, child, hchild, hlimit⟩ := limit_mem_walk_succ.mp hpath
    refine ⟨n.1, List.fst_mem_of_mem_zipIdx hn, step, hstep, child, hchild, fun hwithin => ?_⟩
    exact within_iff.mp hwithin _ hlimit
  · rintro ⟨entry, hentry, step, hstep, child, hchild, hnot⟩ hwithin
    obtain ⟨i, hi⟩ := List.mem_iff_getElem?.mp hentry
    have hn : (entry, i) ∈ flow.zipIdx := List.mk_mem_zipIdx_iff_getElem?.mpr hi
    have hbelow : ∀ path, .limit path ∉ child.flow.walk (fun _ => true) levels
        (Value.itemPath "" i ++ child.suffix) := fun path hpath =>
      hwithin path (limit_mem_walk_succ.mpr ⟨_, hn, step, hstep, child, hchild, hpath⟩)
    exact hnot (within_iff.mpr hbelow)

theorem child_steps_subset {entry : Value} {step : Step} {child : Step.Child} (hentry : entry ∈ flow)
    (hstep : entry.step? = some step) (hchild : child ∈ step.nestedFlows) :
    child.flow.steps (fun _ => true) levels ⊆ flow.steps (fun _ => true) (levels + 1) := by
  intro x hx
  rw [steps]
  refine List.mem_flatMap.mpr ⟨entry, hentry, ?_⟩
  rw [hstep, Option.elim_some, if_pos rfl]
  exact List.mem_cons_of_mem _ (List.mem_flatMap.mpr ⟨child, hchild, hx⟩)

end Flow

/-! ## Flows that both limits cut -/

namespace Program

variable {levels : Nat} {flow : Flow} {step : Step}

theorem cutFlows_succ_pos : 0 < cutFlows (levels + 1) flow ↔ ∃ entry ∈ flow, ∃ step, entry.step? = some step ∧
    ∃ below ∈ compiledFlows step, 0 < cutFlows levels below := by
  rw [cutFlows, List.sum_pos_iff_exists_pos_nat]
  constructor
  · rintro ⟨count, hcount, hpos⟩
    obtain ⟨entry, hentry, rfl⟩ := List.mem_map.mp hcount
    cases hstep : entry.step? with
    | none => simp [hstep] at hpos
    | some step =>
      rw [hstep, Option.elim_some, List.sum_pos_iff_exists_pos_nat] at hpos
      obtain ⟨part, hpart, hpos⟩ := hpos
      obtain ⟨below, hbelow, rfl⟩ := List.mem_map.mp hpart
      exact ⟨entry, hentry, step, hstep, below, hbelow, hpos⟩
  · rintro ⟨entry, hentry, step, hstep, below, hbelow, hpos⟩
    refine ⟨_, List.mem_map.mpr ⟨entry, hentry, rfl⟩, ?_⟩
    rw [hstep, Option.elim_some, List.sum_pos_iff_exists_pos_nat]
    exact ⟨_, List.mem_map.mpr ⟨below, hbelow, rfl⟩, hpos⟩

/-- An `else` that is not there counts as empty. -/
theorem exists_compiled_iff (hskip : step.isSkipped = false) {P : Flow → Prop} (hnil : ¬ P []) :
    (∃ below ∈ compiledFlows step, P below) ↔ ∃ below ∈ constructFlows step, P below := by
  rw [compiledFlows, if_neg (by simp [hskip])]
  split_ifs with helse
  · rw [Bool.and_eq_true, beq_iff_eq] at helse
    obtain ⟨hk, hnull⟩ := helse
    have hempty : ((step.get "logic").field "else").items = [] := by rw [Value.eq_null_of_isNull hnull]; rfl
    simp [constructFlows, hk, hempty, hnil]
  · rfl

/-- Some of the flows that are compiled are cut exactly if some of those are that the walk finds. -/
theorem exists_cut_iff (h : compiledFlows step = [] ↔ step.nestedFlows = []) :
    (∃ below ∈ compiledFlows step, 0 < cutFlows levels below) ↔
      ∃ child ∈ step.nestedFlows, 0 < cutFlows levels child.flow := by
  cases levels with
  | zero =>
    -- Every flow is cut, also an empty one that the walk does not find.
    have hall (flow : Flow) : 0 < cutFlows 0 flow := Nat.zero_lt_one
    rw [List.eq_nil_iff_forall_not_mem, List.eq_nil_iff_forall_not_mem] at h
    simpa [hall] using not_congr h
  | succ levels =>
    have hnil : ¬ 0 < cutFlows (levels + 1) [] := by simp [cutFlows]
    by_cases hskip : step.isSkipped = true
    · have hcompiled : compiledFlows step = [] := by rw [compiledFlows, if_pos hskip]
      rw [hcompiled, h.mp hcompiled]
      simp
    · rw [Bool.not_eq_true] at hskip
      rw [exists_compiled_iff hskip hnil]
      -- The walk and the readers find the same flows that are not empty.
      have hsame := nestedFlows_flatMap (fun below => if 0 < cutFlows (levels + 1) below then [()] else [])
        (if_neg hnil) hskip
      have hmem := congrArg (fun marks => () ∈ marks) hsame
      simpa [List.mem_flatMap] using (Iff.of_eq hmem).symm

/-- A flow whose steps are found to be in order is cut exactly if it exceeds the levels. -/
theorem cutFlows_pos_iff
    (h : ∀ step ∈ flow.steps (fun _ => true) levels, compiledFlows step = [] ↔ step.nestedFlows = []) :
    0 < cutFlows levels flow ↔ ¬ flow.Within levels := by
  induction levels generalizing flow with
  | zero => simp [cutFlows, Flow.not_within_zero]
  | succ levels ih =>
    rw [cutFlows_succ_pos, Flow.not_within_succ]
    refine exists_congr fun entry => and_congr_right fun hentry => ?_
    refine exists_congr fun step => and_congr_right fun hstep => ?_
    rw [exists_cut_iff (h step (step_mem_steps _ hentry hstep))]
    refine exists_congr fun child => and_congr_right fun hchild => ih fun x hx => h x ?_
    exact Flow.child_steps_subset hentry hstep hchild hx

/-- Where skipped steps own no flows that the walk finds, leaving them aside leaves no step out. -/
theorem steps_subset_compiled
    (h : ∀ step ∈ flow.steps (fun _ => true) levels, compiledFlows step = [] ↔ step.nestedFlows = []) :
    flow.steps (fun _ => true) levels ⊆ flow.steps (fun step => !step.isSkipped) levels := by
  induction levels generalizing flow with
  | zero => exact List.Subset.refl _
  | succ levels ih =>
    intro x hx
    obtain ⟨entry, hentry, hx⟩ := List.mem_flatMap.mp hx
    refine List.mem_flatMap.mpr ⟨entry, hentry, ?_⟩
    cases hstep : entry.step? with
    | none => simp [hstep] at hx
    | some step =>
      rw [hstep, Option.elim_some, if_pos rfl, List.mem_cons] at hx
      rw [Option.elim_some, List.mem_cons]
      refine hx.imp_right fun hx => ?_
      obtain ⟨child, hchild, hx⟩ := List.mem_flatMap.mp hx
      have hbelow := ih fun y hy => h y (Flow.child_steps_subset hentry hstep hchild hy)
      have hskip : step.isSkipped = false := by
        rw [Bool.eq_false_iff]
        intro hskip
        have hnone := (h step (step_mem_steps _ hentry hstep)).mp (by rw [compiledFlows, if_pos hskip])
        rw [hnone] at hchild
        cases hchild
      rw [if_pos (by simp [hskip])]
      exact List.mem_flatMap.mpr ⟨child, hchild, hbelow hx⟩

/-! ## Documents -/

variable {ctx : Context} {document : Fields} {found : List Diagnostic}

/-- A check that answers has checked every event of the walk over a task. -/
theorem exists_check_of_event (hcheck : checkExtended ctx.settings (.map document) = .ok found) :
    ∃ levels, ctx.settings.walkLevels = .ok levels ∧
      ∀ numbered ∈ (document.get "tasks").items.zipIdx, ∀ flow, numbered.1.taskFlow? = some flow →
        ∀ event ∈ flow.walk (fun _ => true) levels (taskFlowPath numbered.2),
          ∃ ds, checkEvent ctx.settings event = .ok ds ∧ ds ⊆ found := by
  unfold checkExtended at hcheck
  obtain ⟨levels, hlevels, hcheck⟩ := bind_eq_ok.mp hcheck
  obtain ⟨results, hresults, hcheck⟩ := bind_eq_ok.mp hcheck
  obtain rfl := Except.ok.inj hcheck
  refine ⟨levels, hlevels, fun numbered hnumbered flow hflow event hevent => ?_⟩
  have hwalk : event ∈ (Value.map document).walkTasks (fun _ => true) levels := by
    refine List.mem_flatMap.mpr ⟨numbered, hnumbered, ?_⟩
    simp only [hflow]
    exact hevent
  obtain ⟨ds, hds, hevent⟩ := exists_result_of_mem hresults hwalk
  exact ⟨ds, hevent, fun d hd => List.mem_flatten.mpr ⟨ds, hds, hd⟩⟩

/-- Where a check finds neither an error nor a missing flow and meets no limit, the flow of every task is within
the levels of the walk, and its steps are in order. -/
theorem tasks_of_check (hcheck : checkExtended ctx.settings (.map document) = .ok found)
    (hfound : ∀ d ∈ found, keepsFlows d = true) (hnesting : ∀ path, nestingWarning ctx.settings path ∉ found) :
    ∃ levels, ctx.settings.walkLevels = .ok levels ∧
      ∀ task ∈ (document.get "tasks").items, ∀ flow, task.taskFlow? = some flow → flow.Within levels ∧
        ∀ step ∈ flow.steps (fun _ => true) levels, compiledFlows step = [] ↔ step.nestedFlows = [] := by
  obtain ⟨levels, hlevels, hevents⟩ := exists_check_of_event hcheck
  refine ⟨levels, hlevels, fun task htask flow hflow => ?_⟩
  obtain ⟨i, hi⟩ := List.mem_iff_getElem?.mp htask
  have hnumbered : (task, i) ∈ (document.get "tasks").items.zipIdx := List.mk_mem_zipIdx_iff_getElem?.mpr hi
  have hevent := hevents _ hnumbered flow hflow
  constructor
  · have hno : ∀ path, .limit path ∉ flow.walk (fun _ => true) levels (taskFlowPath i) := by
      intro path hpath
      obtain ⟨ds, hds, hsubset⟩ := hevent _ hpath
      rw [checkEvent_limit] at hds
      split_ifs at hds
      obtain rfl := Except.ok.inj hds
      exact hnesting path (hsubset (List.mem_singleton_self _))
    exact Flow.within_iff.mpr hno
  · intro step hstep
    rw [← Flow.visits_walk _ _ _ (taskFlowPath i)] at hstep
    obtain ⟨⟨_, path⟩, hvisit, rfl⟩ := List.mem_map.mp hstep
    obtain ⟨event, hmem, hsome⟩ := List.mem_filterMap.mp hvisit
    cases event with
    | limit => cases hsome
    | visit =>
      cases hsome
      obtain ⟨ds, hds, hsubset⟩ := hevent _ hmem
      exact compiledFlows_eq_nil_iff hds fun d hd => hfound d (hsubset hd)

/-- How a fraction is rounded does not decide whether a limit is a number. -/
theorem exists_rounded {limit : Limit} {round : Number.Exact → Int} {n : Int} (h : limit.rounded round = .ok n)
    (other : Number.Exact → Int) : ∃ m, limit.rounded other = .ok m := by
  unfold Limit.rounded at h ⊢
  split
  case h_3 => split <;> exact ⟨_, rfl⟩
  case h_4 => simp_all
  all_goals exact ⟨_, rfl⟩

theorem exists_most {limit : Limit} (h : limit.levels = .ok levels) :
    ∃ most, limit.most = .ok most ∧ most.toNat ≤ levels := by
  have hmost : ∃ most, limit.most = .ok most := by
    unfold Limit.levels at h
    cases hround : limit.rounded Number.Exact.ceiling with
    | ok n => exact exists_rounded hround Number.Exact.floor
    | error f =>
      rw [hround] at h
      cases h
  obtain ⟨most, hmost⟩ := hmost
  obtain ⟨more, hmore, hle⟩ := Limit.exists_levels hmost
  obtain rfl := Except.ok.inj (hmore.symm.trans h)
  exact ⟨most, hmost, hle⟩

/-- The pass goes no deeper into a task than the walk does. -/
theorem exists_taskRun {settings : Settings} {task : Value} (hlevels : settings.walkLevels = .ok levels)
    (hflow : task.taskFlow? = some flow) :
    ∃ most left, settings.maxWalkDepth.most = .ok most ∧ taskRun? settings task = some (flow, left) ∧
      left = (most + 1 - taskLevel task).toNat ∧ left ≤ levels := by
  obtain ⟨most, hmost, hle⟩ := exists_most hlevels
  have hlevel : 1 ≤ taskLevel task := by
    unfold taskLevel
    split_ifs <;> decide
  refine ⟨most, _, hmost, taskRun?_eq_some.mpr ⟨hflow, ?_⟩, rfl, by omega⟩
  rw [levelsFrom, hmost]
  rfl

theorem Pass.State.Records.each {α : Type} {f : α → Pass Block} {steps : α → List Step} {entries : List α}
    {s s' : State} {b : Block}
    (hf : ∀ entry ∈ entries, ∀ {s b s'}, (f entry).Runs s b s' → s.Records (steps entry) s')
    (h : (each f entries).Runs s b s') : s.Records (entries.flatMap steps) s' := by
  induction entries generalizing s b with
  | nil =>
    obtain ⟨-, rfl⟩ := runs_each_nil.mp h
    exact .of_eq rfl rfl
  | cons entry rest ih =>
    obtain ⟨first, t, others, hfirst, hrest, -⟩ := runs_each_cons.mp h
    have hothers := ih (fun entry hentry => hf entry (List.mem_cons_of_mem _ hentry)) hrest
    exact (hf entry List.mem_cons_self hfirst).trans hothers

theorem taskBlock_records {total : Nat} {numbered : Value × Nat} {s s' : State} {b : Block}
    (h : (taskBlock ctx total numbered).Runs s b s') :
    s.Records ((taskRun? ctx.settings numbered.1).elim [] fun run =>
      run.1.steps (fun step => !step.isSkipped) run.2) s' := by
  simp only [taskBlock] at h
  cases hflow : numbered.1.taskFlow? with
  | none =>
    simp only [hflow, runs_bind, runs_pure] at h
    obtain ⟨_, _, hwarn, -, rfl⟩ := h
    simpa [taskRun?, hflow] using State.Records.of_binds (Quiet.warn _ hwarn)
  | some flow =>
    simp only [hflow, runs_bind, runs_pure] at h
    obtain ⟨body, t, hbody, output, _, houtput, -, rfl⟩ := h
    obtain ⟨levels, u, inner, hrun, hnotes, hflowBlock, -⟩ := flowAt_of_taskFlowBlock hflow hbody
    have hsteps := (State.Records.of_binds hnotes.binds).trans (flowBlock_records hflowBlock)
    simpa [hrun] using hsteps.trans (.of_binds (outputBlock_quiet _ houtput))

/-- The steps of a task are given to their rules as deep as the pass goes. -/
theorem task_steps_handed {task : Value} (htask : task ∈ (document.get "tasks").items)
    (hrun : taskRun? ctx.settings task = some (flow, levels)) {s s' : State} {b : Block}
    (h : (documentBlock ctx document).Runs s b s') :
    flow.steps (fun step => !step.isSkipped) levels ⊆ s'.handed := by
  simp only [documentBlock, runs_bind, runs_pure] at h
  obtain ⟨_, t, -, body, _, hbody, -, rfl⟩ := h
  obtain ⟨i, hi⟩ := List.mem_iff_getElem?.mp htask
  have hnumbered : (task, i) ∈ (document.get "tasks").items.zipIdx := List.mk_mem_zipIdx_iff_getElem?.mpr hi
  have hrecords := State.Records.each (fun numbered _ _ _ _ => taskBlock_records) hbody
  intro step hstep
  rw [hrecords.handed]
  refine List.mem_append_right _ (List.mem_flatMap.mpr ⟨_, hnumbered, ?_⟩)
  rw [hrun]
  exact hstep

/-- A task whose steps are in order is cut exactly if it exceeds the levels that are left to it. -/
theorem cutTask_pos_iff {task : Value} {walked : Nat} (hlevels : ctx.settings.walkLevels = .ok walked)
    (h : ∀ flow, task.taskFlow? = some flow →
      ∀ step ∈ flow.steps (fun _ => true) walked, compiledFlows step = [] ↔ step.nestedFlows = []) :
    0 < cutTask ctx.settings task ↔
      ∃ flow levels, taskRun? ctx.settings task = some (flow, levels) ∧ ¬ flow.Within levels := by
  cases hrun : taskRun? ctx.settings task with
  | none => simp [cutTask, hrun]
  | some run =>
    obtain ⟨flow, levels⟩ := run
    have hflow := (taskRun?_eq_some.mp hrun).1
    obtain ⟨_, left, -, hleft, -, hle⟩ := exists_taskRun hlevels hflow
    obtain ⟨-, rfl⟩ := Prod.mk.inj (Option.some.inj (hrun.symm.trans hleft))
    have hcut : cutTask ctx.settings task = cutFlows levels flow := by rw [cutTask, hrun, Option.elim_some]
    rw [hcut, cutFlows_pos_iff fun step hstep => h flow hflow step (steps_mono hle _ hstep)]
    simp

/-- Unless the limit is a fraction, only a task that may fail has fewer levels left than the walk enters. -/
theorem exceeds_iff_of_whole {task : Value} {most : Int} (hmost : ctx.settings.maxWalkDepth.most = .ok most)
    (hlevels : ctx.settings.walkLevels = .ok most.toNat)
    (hwithin : ∀ flow, task.taskFlow? = some flow → flow.Within most.toNat) :
    (∃ flow levels, taskRun? ctx.settings task = some (flow, levels) ∧ ¬ flow.Within levels) ↔
      mayFail task = true ∧
        ∃ flow, task.taskFlow? = some flow ∧ flow.Within most.toNat ∧ ¬ flow.Within (most - 1).toNat := by
  have hrun (flow : Flow) (hflow : task.taskFlow? = some flow) :
      taskRun? ctx.settings task = some (flow, (most + 1 - taskLevel task).toNat) := by
    obtain ⟨_, _, hmost', hrun, rfl, -⟩ := exists_taskRun hlevels hflow
    obtain rfl := Except.ok.inj (hmost.symm.trans hmost')
    exact hrun
  have hdeeper (hfail : mayFail task = true) : most + 1 - taskLevel task = most - 1 := by
    rw [taskLevel, if_pos hfail]
    omega
  constructor
  · rintro ⟨flow, levels, htask, hexceeds⟩
    have hflow := (taskRun?_eq_some.mp htask).1
    obtain ⟨-, rfl⟩ := Prod.mk.inj (Option.some.inj (htask.symm.trans (hrun flow hflow)))
    by_cases hfail : mayFail task = true
    · rw [hdeeper hfail] at hexceeds
      exact ⟨hfail, flow, hflow, hwithin flow hflow, hexceeds⟩
    · have hleft : most + 1 - taskLevel task = most := by
        rw [taskLevel, if_neg hfail]
        omega
      rw [hleft] at hexceeds
      exact absurd (hwithin flow hflow) hexceeds
  · rintro ⟨hfail, flow, hflow, -, hexceeds⟩
    refine ⟨flow, _, hrun flow hflow, ?_⟩
    rwa [hdeeper hfail]

/-- A flow that is compiled whole has all its steps given to their rules. -/
theorem validated_step_handed {walked : Nat} (hlevels : ctx.settings.walkLevels = .ok walked)
    (h : ∀ task ∈ (document.get "tasks").items, ∀ flow, task.taskFlow? = some flow → flow.Within walked ∧
      ∀ step ∈ flow.steps (fun _ => true) walked, compiledFlows step = [] ↔ step.nestedFlows = [])
    (hwhole : ∀ task ∈ (document.get "tasks").items, ∀ flow levels,
      taskRun? ctx.settings task = some (flow, levels) → flow.Within levels)
    {s s' : State} {b : Block} (hrun : (documentBlock ctx document).Runs s b s') {visit : Walk.Visit}
    (hvisit : visit ∈ Walk.visits ((Value.map document).walkTasks (fun _ => true) walked)) :
    visit.step ∈ s'.handed := by
  rw [Value.walkTasks_eq, Flow.visits_flatMap] at hvisit
  obtain ⟨⟨task, i⟩, hnumbered, hvisit⟩ := List.mem_flatMap.mp hvisit
  have htask : task ∈ (document.get "tasks").items := List.fst_mem_of_mem_zipIdx hnumbered
  cases hflow : task.taskFlow? with
  | none => simp [hflow, Walk.visits] at hvisit
  | some flow =>
    simp only [hflow] at hvisit
    have hstep : visit.step ∈ flow.steps (fun _ => true) walked := by
      rw [← Flow.visits_walk _ _ _ (taskFlowPath i)]
      exact List.mem_map_of_mem hvisit
    obtain ⟨hwithin, horder⟩ := h task htask flow hflow
    obtain ⟨_, levels, -, htaskRun, -, hle⟩ := exists_taskRun hlevels hflow
    rw [Flow.steps_of_within (hwhole task htask flow levels htaskRun) hwithin] at hstep
    have hcompiled := steps_subset_compiled fun step hstep => horder step (steps_mono hle _ hstep)
    exact task_steps_handed htask htaskRun hrun (hcompiled hstep)

/-- Where a document is found to be in order and no limit is met, the program warns as often as it leaves a
flow out, and does so for the tasks whose flow exceeds the levels that are left to it. Unless the limit is a
fraction these are the tasks that may fail and use all levels of the walk. If there is none, every step that
was validated is given to its rule. -/
theorem left_out_iff_exceeds {b : Block} {s' : State}
    (hcheck : checkExtended ctx.settings (.map document) = .ok found)
    (hfound : ∀ d ∈ found, keepsFlows d = true) (hnesting : ∀ path, nestingWarning ctx.settings path ∉ found)
    (h : (documentBlock ctx document).Runs {} b s') :
    s'.warnings.count (limitWarning ctx.settings) = blockNotices b ∧
    (limitWarning ctx.settings ∈ s'.warnings ↔ ∃ task ∈ (document.get "tasks").items, ∃ flow levels,
      taskRun? ctx.settings task = some (flow, levels) ∧ ¬ flow.Within levels) ∧
    (∀ most, ctx.settings.maxWalkDepth.most = .ok most → ctx.settings.walkLevels = .ok most.toNat →
      (limitWarning ctx.settings ∈ s'.warnings ↔ ∃ task ∈ (document.get "tasks").items, mayFail task = true ∧
        ∃ flow, task.taskFlow? = some flow ∧ flow.Within most.toNat ∧ ¬ flow.Within (most - 1).toNat)) ∧
    (limitWarning ctx.settings ∉ s'.warnings → ∃ levels, ctx.settings.walkLevels = .ok levels ∧
      ∀ visit ∈ Walk.visits ((Value.map document).walkTasks (fun _ => true) levels), visit.step ∈ s'.handed) := by
  obtain ⟨walked, hlevels, htasks⟩ := tasks_of_check hcheck hfound hnesting
  obtain ⟨hwarned, hleft⟩ := documentBlock_cuts ctx document h
  have hcount : s'.warnings.count (limitWarning ctx.settings) = blockNotices b := by
    rw [hleft]
    exact hwarned.trans (Nat.zero_add _)
  have hcut : limitWarning ctx.settings ∈ s'.warnings ↔ ∃ task ∈ (document.get "tasks").items, ∃ flow levels,
      taskRun? ctx.settings task = some (flow, levels) ∧ ¬ flow.Within levels := by
    rw [← List.count_pos_iff, hcount, hleft, List.sum_pos_iff_exists_pos_nat]
    simp only [List.mem_map, exists_exists_and_eq_and]
    refine exists_congr fun task => and_congr_right fun htask => ?_
    exact cutTask_pos_iff hlevels fun flow hflow => (htasks task htask flow hflow).2
  refine ⟨hcount, hcut, fun most hmost hwhole => ?_, fun hnone => ⟨walked, hlevels, fun visit hvisit => ?_⟩⟩
  · obtain rfl := Except.ok.inj (hlevels.symm.trans hwhole)
    rw [hcut]
    refine exists_congr fun task => and_congr_right fun htask => ?_
    exact exceeds_iff_of_whole hmost hlevels fun flow hflow => (htasks task htask flow hflow).1
  · refine validated_step_handed hlevels htasks (fun task htask flow levels hrun => ?_) h hvisit
    by_contra hexceeds
    exact hnone (hcut.mpr ⟨task, htask, flow, levels, hrun, hexceeds⟩)

/-- A conditional step with an action in it: a flow of two levels. -/
def conditionalFlow : Flow :=
  [.map [(.text "logic", .map [(.text "if", .text "ready"), (.text "then", .list
    [.map [(.text "ai", .text "tap")]])])]]

/-- Two levels may be entered. -/
def shallow : Context := { settings := { maxWalkDepth := 2 } }

theorem conditionalFlow_not_left_out :
    ∃ b s', checkExtended shallow.settings (.map (oneTask conditionalFlow)) = .ok [] ∧
      (documentBlock shallow (oneTask conditionalFlow)).Runs {} b s' ∧
      limitWarning shallow.settings ∉ s'.warnings ∧ blockNotices b = 0 ∧ ∃ levels,
        (Walk.visits ((Value.map (oneTask conditionalFlow)).walkTasks (fun _ => true) levels)).length = 2 ∧
        ∀ visit ∈ Walk.visits ((Value.map (oneTask conditionalFlow)).walkTasks (fun _ => true) levels),
          visit.step ∈ s'.handed := by
  have hcheck : checkExtended shallow.settings (.map (oneTask conditionalFlow)) = .ok [] := rfl
  have hok : ((documentBlock shallow (oneTask conditionalFlow)).run {}).toOption.isSome = true := by decide +kernel
  cases hrun : (documentBlock shallow (oneTask conditionalFlow)).run {} with
  | error f => simp [hrun, Except.toOption] at hok
  | ok r =>
    obtain ⟨b, s'⟩ := r
    obtain ⟨hcount, -, hwhole, hhanded⟩ := left_out_iff_exceeds hcheck (by simp) (by simp) hrun
    have hnone : limitWarning shallow.settings ∉ s'.warnings := by
      rw [hwhole 2 rfl rfl]
      rintro ⟨task, htask, hfail, -⟩
      obtain rfl := List.mem_singleton.mp htask
      exact absurd hfail (by decide)
    obtain ⟨levels, hlevels, hsteps⟩ := hhanded hnone
    obtain rfl := Except.ok.inj hlevels
    exact ⟨b, s', hcheck, hrun, hnone, hcount ▸ List.count_eq_zero.mpr hnone, 2, by decide, hsteps⟩

/-- A task that may fail is left out at once where one level may be entered, though its check finds nothing. -/
theorem failing_task_left_out :
    checkExtended { maxWalkDepth := 1 } (.map [(.text "tasks", .list [.map [(.text "continueOnError", .bool true),
        (.text "flow", .list [.map [(.text "ai", .text "tap")]])]])]) = .ok [] ∧
      ((documentBlock { settings := { maxWalkDepth := 1 } } [(.text "tasks", .list [.map
        [(.text "continueOnError", .bool true), (.text "flow", .list [.map [(.text "ai", .text "tap")]])]])]).run
        {}).toOption.map (fun r => (r.1.lines (Margin.copies "    ") 1, r.2.warnings)) =
      some (["    try:", "        # Skipped: nesting limit reached", "    except Exception as _task_error:",
        "        logger.warning(\"Task %s failed: %s\", 'Task 1', _task_error)"],
        ["Nesting exceeds 1 levels; deeper steps were skipped"]) := by
  refine ⟨rfl, by decide +kernel⟩

end Program

end FlowScript
