import FlowScript.Proofs.Step

/-!
# The steps a pass comes to

A pass compiles the flows of a step through the readers of its construct, and a walk finds them through
`Step.nestedFlows`. Both go through the same flows in the same order, and a flow is cut off by both at
the same level. So the steps that a pass gives to their rules are those that a walk visits if it does
not enter the steps of which only a comment is left.
-/
namespace FlowScript

open Construct

namespace Flow

/-- The steps that a walk visits, in order. -/
def steps (enters : Step → Bool) : Nat → Flow → List Step
  | 0, _ => []
  | levels + 1, flow => flow.flatMap fun entry =>
      entry.step?.elim [] fun step =>
        step :: if enters step then step.nestedFlows.flatMap fun child => steps enters levels child.flow
          else []

/-- The steps of an entry come before those of the entries after it. -/
theorem steps_cons (enters : Step → Bool) (levels : Nat) (entry : Value) (rest : Flow) :
    steps enters (levels + 1) (entry :: rest) = (entry.step?.elim [] fun step =>
      step :: if enters step then step.nestedFlows.flatMap fun child => steps enters levels child.flow else []) ++
      steps enters (levels + 1) rest := by
  rw [steps, List.flatMap_cons]
  rfl

theorem visits_append (a b : List Walk.Event) : Walk.visits (a ++ b) = Walk.visits a ++ Walk.visits b :=
  List.filterMap_append

theorem visits_flatMap {α : Type} (xs : List α) (f : α → List Walk.Event) :
    Walk.visits (xs.flatMap f) = xs.flatMap fun x => Walk.visits (f x) := by
  induction xs with
  | nil => rfl
  | cons x xs ih => rw [List.flatMap_cons, visits_append, ih, List.flatMap_cons]

/-- One level of a walk: every step is visited and, if it is entered, the flows it owns are walked. -/
theorem walkWhere_succ (enters : Walk.Visit → Bool) (levels : Nat) (flow : Flow) (path : String) :
    flow.walkWhere enters (levels + 1) path = flow.zipIdx.flatMap fun n =>
      n.1.step?.elim [] fun step => .visit step (Value.itemPath path n.2) ::
        if enters ⟨step, Value.itemPath path n.2⟩ then
          step.nestedFlows.flatMap fun child =>
            walkWhere enters levels child.flow (Value.itemPath path n.2 ++ child.suffix)
        else [] := by
  rw [walkWhere]
  refine List.flatMap_congr fun n _ => ?_
  obtain ⟨entry, i⟩ := n
  cases hstep : entry.step? with
  | none => simp only [hstep, Option.elim_none]
  | some step => simp only [hstep, Option.elim_some]

theorem walk_succ (enters : Step → Bool) (levels : Nat) (flow : Flow) (path : String) :
    flow.walk enters (levels + 1) path = flow.zipIdx.flatMap fun n =>
      n.1.step?.elim [] fun step => .visit step (Value.itemPath path n.2) :: if enters step then
        step.nestedFlows.flatMap fun child =>
          walk enters levels child.flow (Value.itemPath path n.2 ++ child.suffix)
      else [] :=
  walkWhere_succ _ levels flow path

theorem visits_walk (enters : Step → Bool) (levels : Nat) (flow : Flow) (path : String) :
    (Walk.visits (flow.walk enters levels path)).map (·.step) = flow.steps enters levels := by
  induction levels generalizing flow path with
  | zero => rfl
  | succ levels ih =>
    calc (Walk.visits (flow.walk enters (levels + 1) path)).map (·.step)
        = flow.zipIdx.flatMap fun n => n.1.step?.elim [] fun step => step :: if enters step then
            step.nestedFlows.flatMap fun child => steps enters levels child.flow else [] := by
          rw [walk_succ, visits_flatMap, List.map_flatMap]
          refine List.flatMap_congr fun n _ => ?_
          cases n.1.step? with
          | none => rfl
          | some step =>
            by_cases henters : enters step = true
            · simp only [if_pos henters, Option.elim_some]
              change step :: (Walk.visits _).map (·.step) = _
              rw [visits_flatMap, List.map_flatMap]
              simp only [ih]
            · simp only [if_neg henters, Option.elim_some]
              rfl
      _ = flow.steps enters (levels + 1) := by
          rw [steps]
          conv_rhs => rw [← List.zipIdx_map_fst 0 flow]
          rw [List.flatMap_map]

/-- Only what a walk decides at the steps it visits matters. -/
theorem steps_congr {enters enters' : Step → Bool} {levels : Nat} {flow : Flow}
    (h : ∀ step ∈ flow.steps enters levels, enters' step = enters step) :
    flow.steps enters' levels = flow.steps enters levels := by
  induction levels generalizing flow with
  | zero => rfl
  | succ levels ih =>
    rw [steps, steps]
    refine List.flatMap_congr fun entry hentry => ?_
    cases hstep : entry.step? with
    | none => rfl
    | some step =>
      -- The steps below this entry are among those of the flow.
      have hmem : ∀ x ∈ step :: (if enters step then
          step.nestedFlows.flatMap fun child => steps enters levels child.flow else []),
          enters' x = enters x := by
        intro x hx
        refine h x ?_
        rw [steps]
        exact List.mem_flatMap.mpr ⟨entry, hentry, by rw [hstep]; exact hx⟩
      have hhead : enters' step = enters step := hmem step (by simp)
      simp only [Option.elim_some, hhead]
      by_cases henters : enters step = true
      · rw [if_pos henters] at hmem ⊢
        rw [if_pos henters]
        refine congrArg _ (List.flatMap_congr fun child hchild => ih fun x hx => ?_)
        exact hmem x (List.mem_cons_of_mem _ (List.mem_flatMap.mpr ⟨child, hchild, hx⟩))
      · rw [if_neg henters, if_neg henters]

/-- A walk that enters every step leaves none out. -/
theorem steps_subset_of_enters {enters : Step → Bool} {levels : Nat} {flow : Flow} :
    flow.steps enters levels ⊆ flow.steps (fun _ => true) levels := by
  induction levels generalizing flow with
  | zero => exact List.Subset.refl _
  | succ levels ih =>
    intro x hx
    obtain ⟨entry, hentry, hx⟩ := List.mem_flatMap.mp hx
    refine List.mem_flatMap.mpr ⟨entry, hentry, ?_⟩
    cases hstep : entry.step? with
    | none => simp [hstep] at hx
    | some step =>
      rw [hstep, Option.elim_some, List.mem_cons] at hx
      rw [Option.elim_some, if_pos rfl, List.mem_cons]
      refine hx.imp_right fun hx => ?_
      split_ifs at hx
      · obtain ⟨child, hchild, hx⟩ := List.mem_flatMap.mp hx
        exact List.mem_flatMap.mpr ⟨child, hchild, ih hx⟩
      · cases hx

end Flow

/-- A document is walked task by task. -/
theorem Value.walkTasks_eq (enters : Step → Bool) (levels : Nat) (document : Value) :
    document.walkTasks enters levels = (document.field "tasks").items.zipIdx.flatMap fun (task, i) =>
      match task.taskFlow? with
      | some flow => flow.walk enters levels (taskFlowPath i)
      | none => [] := rfl

namespace Program

open Pass

/-- From one state to the next the given steps were given to their rules, and of these a comment is
left exactly for those that cannot be compiled. -/
structure Pass.State.Records (steps : List Step) (s s' : State) : Prop where
  handed : s'.handed = s.handed ++ steps
  skipped : ∃ more, s'.skipped = s.skipped ++ more ∧
    ∀ step : Step, Value.map step ∈ more ↔ step ∈ steps ∧ step.isSkipped = true

namespace Pass.State.Records

variable {s t s' : State} {steps others : List Step}

theorem of_eq (hh : s'.handed = s.handed) (hs : s'.skipped = s.skipped) : s.Records [] s' :=
  ⟨by simp [hh], [], by simp [hs], by simp⟩

theorem of_binds {names : List String} (h : s.Binds names s') : s.Records [] s' :=
  .of_eq h.handed h.skipped

protected theorem trans (h : s.Records steps t) (h' : t.Records others s') :
    s.Records (steps ++ others) s' := by
  obtain ⟨more, hmore, hmem⟩ := h.skipped
  obtain ⟨rest, hrest, hmem'⟩ := h'.skipped
  refine ⟨by rw [h'.handed, h.handed, List.append_assoc], more ++ rest,
    by rw [hrest, hmore, List.append_assoc], fun step => ?_⟩
  rw [List.mem_append, List.mem_append, hmem, hmem', or_and_right]

end Pass.State.Records

section Flows

variable {α : Type} {step : Step} {below : Flow → List α}

/-- What a flow that may be missing contributes to the flows of a step. -/
theorem child_flatMap (hnil : below [] = []) (suffix : String) (flow? : Option Flow) :
    ((Step.child? suffix flow?).elim [] fun child => below child.flow) = below (flow?.getD []) := by
  cases flow? with
  | none => exact hnil.symm
  | some flow => rfl

theorem children_flatMap (children : List (Option Step.Child)) (f : Step.Child → List α) :
    (children.filterMap id).flatMap f = children.flatMap fun child => child.elim [] f := by
  induction children with
  | nil => rfl
  | cons child rest ih => cases child <;> simpa using ih

theorem branches_flatMap (hnil : below [] = []) (numbered : List (Value × Nat)) :
    (numbered.filterMap fun (branch, i) => Step.child? (Step.branchSuffix i) branch.flow?).flatMap
        (fun child => below child.flow) =
      (numbered.map Prod.fst).flatMap fun branch => below (branch.flow?.getD []) := by
  induction numbered with
  | nil => rfl
  | cons n rest ih =>
    obtain ⟨branch, i⟩ := n
    rw [List.map_cons, List.flatMap_cons, ← ih]
    cases hflow : branch.flow? with
    | none => simp [Step.child?, hflow, hnil]
    | some flow => simp [Step.child?, hflow]

theorem items?_of_fields? {v : Value} {es : Fields} (h : v.fields? = some es) : v.items? = none := by
  unfold Value.fields? at h
  split at h <;> simp_all [Value.items?]

/-- The flows of a step as the readers of its construct give them. -/
def constructFlows (step : Step) : List Flow :=
  match step.kind with
  | .logic => [((step.get "logic").field "then").items, ((step.get "logic").field "else").items]
  | .loop => (Loop.read? step).toList.map (·.flow)
  | .guarded =>
    let guard := Guard.read step
    guard.body.getD [] :: (guard.handler.toList ++ guard.cleanup.toList)
  | .parallel => (Parallel.read? step).elim [] fun parallel => parallel.branches.map (·.flow)
  | _ => []

/-- The readers and the walk find the same flows, up to empty ones. -/
theorem nestedFlows_flatMap (below : Flow → List α) (hnil : below [] = []) (hc : step.isSkipped = false) :
    step.nestedFlows.flatMap (fun child => below child.flow) = (constructFlows step).flatMap below := by
  unfold Step.nestedFlows constructFlows
  cases hk : step.kind with
  | logic =>
    simp only [children_flatMap, List.flatMap_cons, List.flatMap_nil, child_flatMap hnil]
    rfl
  | loop =>
    cases hr : Loop.read? step with
    | none => simp [Step.isSkipped, hk, hr] at hc
    | some loop =>
      obtain ⟨es, hes, rfl⟩ := Option.map_eq_some_iff.mp hr
      have hflow : (step.get "loop").flow? = es.flow? := by
        rw [Value.flow?, items?_of_fields? hes, hes]
        rfl
      simp only [children_flatMap, List.flatMap_cons, List.flatMap_nil, child_flatMap hnil, hflow]
      rfl
  | guarded =>
    have hblock (block : Value) : (Guard.blockFlow? block).toList.flatMap below =
        below (block.flow?.getD []) := by
      unfold Guard.blockFlow?
      split_ifs with hnull
      · cases block with
        | null => exact hnil.symm
        | _ => simp [Value.isNull] at hnull
      · simp
    simp only [children_flatMap, List.flatMap_cons, List.flatMap_nil, child_flatMap hnil,
      List.flatMap_append, List.append_nil]
    rw [Guard.read, hblock, hblock]
  | parallel =>
    cases hr : Parallel.read? step with
    | none => simp [Step.isSkipped, hk, hr] at hc
    | some parallel =>
      obtain ⟨branches, hb, rfl⟩ := Option.map_eq_some_iff.mp hr
      simp only [hb, Option.getD_some, Option.elim_some]
      rw [branches_flatMap hnil, List.zipIdx_map_fst, List.map_map, List.flatMap_map]
      rfl
  | _ => rfl

theorem child_of_mem_constructFlows (hc : step.isSkipped = false) {flow : Flow}
    (hf : flow ∈ constructFlows step) (hne : flow ≠ []) :
    ∃ child ∈ step.nestedFlows, child.flow = flow := by
  -- Collect the flows themselves, without the empty ones.
  have h := nestedFlows_flatMap (fun f : Flow => if f.isEmpty then [] else [f]) rfl hc
  have hmem : flow ∈ (constructFlows step).flatMap fun f : Flow => if f.isEmpty then [] else [f] :=
    List.mem_flatMap.mpr ⟨flow, hf, by simp [hne]⟩
  rw [← h] at hmem
  obtain ⟨child, hchild, hmem⟩ := List.mem_flatMap.mp hmem
  refine ⟨child, hchild, ?_⟩
  split_ifs at hmem
  · simp at hmem
  · exact (List.mem_singleton.mp hmem).symm

end Flows

section Records

variable {ctx : Context} {step : Step} {nested : Flow → Pass Block} {below : Flow → List Step}
  {s s' : State} {b : Block}

theorem handler_records {guard : Guard} {handler cleanup : Block} {t : State}
    (hnested : ∀ {flow s b s'}, (nested flow).Runs s b s' → s.Records (below flow) s')
    (hh : HandlerRun nested guard s handler t) (hf : CleanupRun nested guard t cleanup s') :
    s.Records ((guard.handler.toList ++ guard.cleanup.toList).flatMap below) s' := by
  have hcleanup : t.Records (guard.cleanup.toList.flatMap below) s' := by
    cases hf with
    | cleaned hf hn => simpa [hf] using hnested hn
    | absent hf => simpa [hf] using State.Records.of_eq rfl rfl
  have hhandler : s.Records (guard.handler.toList.flatMap below) t := by
    cases hh with
    | handled hflow hb hn => simpa [hflow] using (State.Records.of_binds hb).trans (hnested hn)
    | absent hnone hc => simpa [hnone] using State.Records.of_eq rfl rfl
    | ignored hnone hc hb => simpa [hnone] using State.Records.of_binds hb
  rw [List.flatMap_append]
  exact hhandler.trans hcleanup

theorem branches_records {merges : Bool} {group : Nat} {named : List NamedBranch}
    (hnested : ∀ {flow s b s'}, (nested flow).Runs s b s' → s.Records (below flow) s')
    (h : BranchesRun nested merges group named s b s') :
    s.Records (named.flatMap fun branch => below branch.branch.flow) s' := by
  induction h with
  | nil => exact .of_eq rfl rfl
  | cons hn he hr ih =>
    -- The scope is put back between branches, and nothing else.
    have hreset : ∀ {t : State} (scope : Scope), t.Records [] { t with scope := scope } :=
      fun scope => .of_eq rfl rfl
    simpa using ((hnested hn).trans (hreset _)).trans ih

/-- What a step adds to the record: itself if only a comment is left of it, else what is below it. -/
theorem StepRun.records (hnil : below [] = [])
    (hnested : ∀ {flow s b s'}, (nested flow).Runs s b s' → s.Records (below flow) s')
    (h : StepRun nested ctx step s b s') :
    (step.isSkipped = true ∧ s.Skips (.map step) s') ∨
    (step.isSkipped = false ∧
      s.Records (step.nestedFlows.flatMap fun child => below child.flow) s') := by
  by_cases hskip : step.isSkipped = true
  · left
    refine ⟨hskip, ?_⟩
    cases h with
    | skipped _ hs => exact hs
    | _ => simp_all
  · right
    rw [Bool.not_eq_true] at hskip
    refine ⟨hskip, ?_⟩
    rw [nestedFlows_flatMap below hnil hskip]
    unfold constructFlows
    cases h with
    | skipped hs _ => rw [hs] at hskip; cases hskip
    | assignments hk hc hb run => simpa [hk] using State.Records.of_binds (bindingsBlock_binds run)
    | importing hk hc hp run => simpa [hk] using State.Records.of_binds (importBlock_binds run)
    | transform hk hr hc hb => simpa [hk] using State.Records.of_binds hb
    | call hk hr hc hb => simpa [hk] using State.Records.of_binds hb
    | use hk hc hb => simpa [hk] using State.Records.of_binds hb
    | query hk hr hc hg hb => simpa [hk] using State.Records.of_binds hb
    | perform hk hr hc hg hb => simpa [hk] using State.Records.of_binds hb
    | conditional hk hc he hb hn =>
      have helse : ((step.get "logic").field "else").items = [] := by
        cases hv : (step.get "logic").field "else" <;> simp_all [Value.isNull, Value.items, Value.items?]
      simpa [hk, helse, hnil] using (State.Records.of_binds hb).trans (hnested hn)
    | alternative hk hc he hb hy hn =>
      simpa [hk] using ((State.Records.of_binds hb).trans (hnested hy)).trans (hnested hn)
    | forEach hk hr hc hl hi hb hn =>
      simpa [hk, hr] using (State.Records.of_binds hb).trans (hnested hn)
    | forIndexed hk hr hc hl hi hb hn =>
      simpa [hk, hr] using (State.Records.of_binds hb).trans (hnested hn)
    | bounded hk hr hc hl hb hn =>
      simpa [hk, hr] using (State.Records.of_binds hb).trans (hnested hn)
    | counted hk hr hc hl hb hn =>
      simpa [hk, hr] using (State.Records.of_binds hb).trans (hnested hn)
    | guarded hk hc hb hn hh hf =>
      have hrest := handler_records hnested hh hf
      simpa [hk] using ((State.Records.of_binds hb).trans (hnested hn)).trans hrest
    | emptyGroup hk hr hc he hb => simpa [hk, hr, he] using State.Records.of_binds hb
    | group hk hr hc he hnames ho hh hf hb =>
      have hopen : s.Records [] _ := .of_eq ho.handed ho.skipped
      have hfunctions := branches_records hnested hf
      simp only [hk, hr, Option.elim_some, ← (nameBranches_spec hnames).1, List.map_map,
        List.flatMap_map]
      simpa using ((hopen.trans (.of_binds hh)).trans hfunctions).trans (.of_binds hb)

theorem flowBlock_records {levels : Nat} {flow : Flow} (h : (flowBlock ctx levels flow).Runs s b s') :
    s.Records (flow.steps (fun step => !step.isSkipped) levels) s' := by
  induction levels generalizing flow s b s' with
  | zero =>
    obtain ⟨-, hb⟩ := flowBlock_zero_run h
    exact .of_binds hb
  | succ levels ih =>
    have hnil : Flow.steps (fun step => !step.isSkipped) levels [] = [] := by cases levels <;> rfl
    change (each (entryOfFlow ctx (flowBlock ctx levels)) flow).Runs s b s' at h
    induction flow generalizing s b with
    | nil =>
      obtain ⟨-, rfl⟩ := runs_each_nil.mp h
      exact .of_eq rfl rfl
    | cons entry rest ihrest =>
      obtain ⟨first, t, others, hentry, hrest, rfl⟩ := runs_each_cons.mp h
      have hafter := ihrest hrest
      rw [Flow.steps, List.flatMap_cons]
      refine State.Records.trans ?_ hafter
      obtain ⟨step, hstep, hrun⟩ | ⟨hstep, -, hskips⟩ := entry_run hentry
      · rw [hstep, Option.elim_some]
        obtain ⟨hskip, hskips⟩ | ⟨hskip, hbelow⟩ := hrun.records hnil ih
        · refine ⟨by simp [hskips.handed, hskip], [.map step], hskips.skipped, fun x => ?_⟩
          simp only [hskip, Bool.not_true, Bool.false_eq_true, if_false, List.mem_singleton,
            Value.map.injEq]
          constructor
          · rintro rfl
            exact ⟨rfl, hskip⟩
          · exact And.left
        · obtain ⟨more, hmore, hmem⟩ := hbelow.skipped
          refine ⟨by simp [hbelow.handed, hskip], more, hmore, fun x => ?_⟩
          simp only [hskip, Bool.not_false, if_true, List.mem_cons, hmem]
          constructor
          · rintro ⟨hx, hs⟩
            exact ⟨.inr hx, hs⟩
          · rintro ⟨rfl | hx, hs⟩
            · rw [hs] at hskip
              cases hskip
            · exact ⟨hx, hs⟩
      · rw [hstep, Option.elim_none]
        refine ⟨by simp [hskips.handed], [entry], hskips.skipped, fun x => ?_⟩
        simp only [List.mem_singleton, List.not_mem_nil, false_and, iff_false]
        rintro rfl
        cases hstep

theorem flowAt_records {level most : Int} {flow : Flow}
    (hmost : ctx.settings.maxWalkDepth.most = .ok most) (h : (flowAt ctx level flow).Runs s b s') :
    s.Records (flow.steps (fun step => !step.isSkipped) (most - (level - 1)).toNat) s' := by
  simp only [flowAt, levelsFrom, runs_bind, runs_lift] at h
  obtain ⟨levels, _, ⟨hl, rfl⟩, h⟩ := h
  rw [hmost] at hl
  obtain rfl := Except.ok.inj hl
  have hlevels : (most - (level - 1)).toNat = (most + 1 - level).toNat := by omega
  rw [hlevels]
  exact flowBlock_records h

/-! ## The runs of the steps -/

/-- A part stands in a block, at any depth. -/
inductive Contains (part : Block) : Block → Prop where
  | here {before after : Block} : Contains part (before ++ part ++ after)
  | inside {header : Header} {before inner after : Block} (h : Contains part inner) :
      Contains part (before ++ .block header inner :: after)

namespace Contains

variable {part other : Block}

theorem refl (b : Block) : Contains b b := by
  have h : Contains b ([] ++ b ++ []) := .here
  simpa using h

theorem append_left (h : Contains part b) (before : Block) : Contains part (before ++ b) := by
  cases h with
  | here =>
    rw [← List.append_assoc, ← List.append_assoc]
    exact .here
  | inside h =>
    rw [← List.append_assoc]
    exact .inside h

theorem append_right (h : Contains part b) (after : Block) : Contains part (b ++ after) := by
  cases h with
  | here =>
    rw [List.append_assoc]
    exact .here
  | inside h =>
    rw [List.append_assoc, List.cons_append]
    exact .inside h

theorem block (h : Contains part b) (header : Header) (after : Block) :
    Contains part (.block header b :: after) := by
  rw [← List.nil_append (Item.block header b :: after)]
  exact .inside h

theorem filled (b : Block) : Contains b (filled b) := by
  cases b with
  | nil => exact (refl []).append_right [.line .pass]
  | cons item items => exact refl _

protected theorem trans (h : Contains part other) (h' : Contains other b) : Contains part b := by
  induction h' with
  | here => exact (h.append_left _).append_right _
  | inside _ ih => exact (ih.block _ _).append_left _

end Contains

theorem branches_exists_run {merges : Bool} {group : Nat} {named : List NamedBranch}
    (h : BranchesRun nested merges group named s b s') {branch : NamedBranch} (hmem : branch ∈ named) :
    ∃ t c t', (nested branch.branch.flow).Runs t c t' ∧ Contains c b := by
  induction h with
  | nil => cases hmem
  | @cons first rest body ending others _ _ _ hn he hr ih =>
    rcases List.mem_cons.mp hmem with rfl | hmem
    · have hbody : Contains body (branchHeader branch.names ++ body ++ ending) := .here
      exact ⟨_, _, _, hn, hbody.block _ _⟩
    · obtain ⟨t, c, t', hrun, hc⟩ := ih hmem
      exact ⟨t, c, t', hrun, hc.append_left [_, _]⟩

/-- The rule of a step compiles every flow of it that has entries and keeps the block of the flow. -/
theorem StepRun.exists_nested (h : StepRun nested ctx step s b s') (hskip : step.isSkipped = false)
    {flow : Flow} (hflow : flow ∈ constructFlows step) (hne : flow ≠ []) :
    ∃ t c t', (nested flow).Runs t c t' ∧ Contains c b := by
  have body (c : Block) (header : Header) (after : Block) :
      Contains c (.block header (filled c) :: after) := (Contains.filled c).block header after
  unfold constructFlows at hflow
  cases h with
  | skipped hs _ => rw [hs] at hskip; cases hskip
  | assignments hk | importing hk | transform hk | call hk | use hk | query hk | perform hk =>
    simp [hk] at hflow
  | conditional hk hc he hb hn =>
    have helse : ((step.get "logic").field "else").items = [] := by
      cases hv : (step.get "logic").field "else" <;> simp_all [Value.isNull, Value.items, Value.items?]
    simp only [hk, helse, List.mem_cons, List.not_mem_nil, or_false, hne] at hflow
    exact ⟨_, _, _, hflow ▸ hn, body _ _ _⟩
  | alternative hk hc he hb hy hn =>
    simp only [hk, List.mem_cons, List.not_mem_nil, or_false] at hflow
    rcases hflow with rfl | rfl
    · exact ⟨_, _, _, hy, body _ _ _⟩
    · exact ⟨_, _, _, hn, (body _ _ _).append_left [_]⟩
  | forEach hk hr hc hl hi hb hn | forIndexed hk hr hc hl hi hb hn =>
    simp only [hk, hr, Option.toList_some, List.map_cons, List.map_nil, List.mem_singleton] at hflow
    exact ⟨_, _, _, hflow ▸ hn, body _ _ _⟩
  | counted hk hr hc hl hb hn =>
    simp only [hk, hr, Option.toList_some, List.map_cons, List.map_nil, List.mem_singleton] at hflow
    exact ⟨_, _, _, hflow ▸ hn, body _ _ _⟩
  | bounded hk hr hc hl hb hn =>
    simp only [hk, hr, Option.toList_some, List.map_cons, List.map_nil, List.mem_singleton] at hflow
    exact ⟨_, _, _, hflow ▸ hn, (((Contains.refl _).append_right _).block _ _).append_left [_]⟩
  | guarded hk hc hb hn hh hf =>
    simp only [hk, List.mem_cons, List.mem_append, Option.mem_toList] at hflow
    rcases hflow with rfl | hhandler | hcleanup
    · exact ⟨_, _, _, hn, body _ _ _⟩
    · cases hh with
      | handled hf' hb' hn' =>
        exact ⟨_, _, _, Option.some.inj (hhandler.symm.trans hf') ▸ hn',
          ((body _ _ _).append_right _).append_left [_]⟩
      | absent hf' => cases hhandler.symm.trans hf'
      | ignored hf' => cases hhandler.symm.trans hf'
    · cases hf with
      | cleaned hf' hn' =>
        exact ⟨_, _, _, Option.some.inj (hcleanup.symm.trans hf') ▸ hn',
          ((body _ _ _).append_left _).append_left [_]⟩
      | absent hf' => cases hcleanup.symm.trans hf'
  | emptyGroup hk hr hc he hb => simp [hk, hr, he] at hflow
  | group hk hr hc he hnames ho hh hf hb =>
    simp only [hk, hr, Option.elim_some, ← (nameBranches_spec hnames).1, List.map_map, List.mem_map] at hflow
    obtain ⟨branch, hbranch, rfl⟩ := hflow
    obtain ⟨t, c, t', hrun, hin⟩ := branches_exists_run hf hbranch
    exact ⟨t, c, t', hrun, (hin.append_left _).append_right _⟩

theorem exists_run_of_mem_each {α : Type} {f : α → Pass Block} {entries : List α}
    (h : (each f entries).Runs s b s') {entry : α} (hmem : entry ∈ entries) :
    ∃ t c t', (f entry).Runs t c t' ∧ Contains c b := by
  induction entries generalizing s b with
  | nil => cases hmem
  | cons first rest ih =>
    obtain ⟨_, t, others, hfirst, hrest, rfl⟩ := runs_each_cons.mp h
    rcases List.mem_cons.mp hmem with rfl | hmem
    · exact ⟨_, _, _, hfirst, (Contains.refl _).append_right others⟩
    · obtain ⟨t, c, t', hrun, hin⟩ := ih hrest hmem
      exact ⟨t, c, t', hrun, hin.append_left _⟩

/-- Every step that a pass comes to was compiled by its rule, and its block is kept. -/
theorem exists_block_of_mem_steps {levels : Nat} {flow : Flow} (h : (flowBlock ctx levels flow).Runs s b s')
    (hmem : step ∈ flow.steps (fun step => !step.isSkipped) levels) :
    ∃ below t c t', (stepBlock ctx (flowBlock ctx below) step).Runs t c t' ∧ Contains c b := by
  induction levels generalizing flow s b s' with
  | zero => cases hmem
  | succ levels ih =>
    obtain ⟨entry, hentry, hmem⟩ := List.mem_flatMap.mp hmem
    obtain ⟨t, c, t', hrun, hin⟩ := exists_run_of_mem_each h hentry
    cases hstep : entry.step? with
    | none => simp [hstep] at hmem
    | some owner =>
      simp only [entryOfFlow, hstep, runs_bind] at hrun
      obtain ⟨_, u, -, hrun⟩ := hrun
      rw [hstep, Option.elim_some, List.mem_cons] at hmem
      rcases hmem with rfl | hmem
      · exact ⟨_, _, _, _, hrun, hin⟩
      · cases hskip : owner.isSkipped with
        | true => simp [hskip] at hmem
        | false =>
          have hnil : Flow.steps (fun step => !step.isSkipped) levels [] = [] := by cases levels <;> rfl
          simp only [hskip, Bool.not_false, if_true] at hmem
          rw [nestedFlows_flatMap _ hnil hskip] at hmem
          obtain ⟨below, hbelow, hmem⟩ := List.mem_flatMap.mp hmem
          have hne : below ≠ [] := by
            rintro rfl
            rw [hnil] at hmem
            cases hmem
          obtain ⟨_, _, _, hnested, hinner⟩ := (stepRun_of_runs hrun).exists_nested hskip hbelow hne
          obtain ⟨n, _, _, _, hrun, hpart⟩ := ih hnested hmem
          exact ⟨n, _, _, _, hrun, hpart.trans (hinner.trans hin)⟩

theorem exists_run_of_mem_steps {levels : Nat} {flow : Flow} (h : (flowBlock ctx levels flow).Runs s b s')
    (hmem : step ∈ flow.steps (fun step => !step.isSkipped) levels) :
    ∃ nested t c t', (stepBlock ctx nested step).Runs t c t' := by
  obtain ⟨below, t, c, t', hrun, -⟩ := exists_block_of_mem_steps h hmem
  exact ⟨flowBlock ctx below, t, c, t', hrun⟩

end Records

/-- The steps that a pass gives to their rules are those that a walk visits that enters as many levels
as are left of the limit, and enters exactly the steps that are not skipped. -/
theorem handed_eq_visits {ctx : Context} {level most : Int} {flow : Flow} {s s' : State} {b : Block}
    (hmost : ctx.settings.maxWalkDepth.most = .ok most) (h : (flowAt ctx level flow).Runs s b s') :
    ∃ handed skipped, s'.handed = s.handed ++ handed ∧ s'.skipped = s.skipped ++ skipped ∧
      ∀ enters path, (∀ step ∈ handed, enters step = false ↔ Value.map step ∈ skipped) →
        handed = (Walk.visits (flow.walk enters (most - (level - 1)).toNat path)).map (·.step) := by
  have hrecords := flowAt_records hmost h
  obtain ⟨skipped, hskipped, hmem⟩ := hrecords.skipped
  refine ⟨_, skipped, hrecords.handed, hskipped, fun enters path henters => ?_⟩
  rw [Flow.visits_walk]
  refine (Flow.steps_congr fun step hstep => ?_).symm
  have hskip : step.isSkipped = true ↔ enters step = false := by
    rw [henters step hstep, hmem]
    exact ⟨fun hs => ⟨hstep, hs⟩, And.right⟩
  cases hs : step.isSkipped <;> cases he : enters step <;> simp_all

/-- A conditional over a step of no kind and an action, and an entry that is no step. -/
def mixedFlow : Flow :=
  [.map [(.text "logic", .map [(.text "if", .text "ready"), (.text "then", .list
      [.map [(.text "bogus", .int 1)], .map [(.text "ai", .text "tap")]])])], .null]

theorem mixedFlow_handed_eq_visits :
    ∃ b s', (flowAt {} 1 mixedFlow).Runs {} b s' ∧ s'.handed.length = 3 ∧ s'.skipped.length = 2 ∧
      s'.handed =
        (Walk.visits (mixedFlow.walk (fun step => !step.isSkipped) 50 "")).map (·.step) := by
  have hlengths : ((flowAt {} 1 mixedFlow).run {}).toOption.map
      (fun r => (r.2.handed.length, r.2.skipped.length)) = some (3, 2) := by decide +kernel
  cases hrun : (flowAt {} 1 mixedFlow).run {} with
  | error e => simp [hrun, Except.toOption] at hlengths
  | ok r =>
    obtain ⟨b, s'⟩ := r
    rw [hrun] at hlengths
    obtain ⟨hhanded, hskipped⟩ := Prod.mk.inj (Option.some.inj hlengths)
    refine ⟨b, s', hrun, hhanded, hskipped, ?_⟩
    have hmost : Limit.most (Settings.maxWalkDepth {}) = .ok 50 := rfl
    obtain ⟨handed, skipped, hh, hs, hvisits⟩ := handed_eq_visits hmost hrun
    obtain ⟨more, hmore, hmem⟩ := (flowAt_records hmost hrun).skipped
    have hall := (flowAt_records hmost hrun).handed
    rw [hh] at hall ⊢
    rw [hs] at hmore
    refine hvisits _ "" fun step hstep => ?_
    rw [List.append_cancel_left hmore, hmem, ← List.append_cancel_left hall]
    simp [hstep]

end Program

end FlowScript
