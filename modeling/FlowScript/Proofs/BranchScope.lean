import FlowScript.Proofs.Hoisting

/-!
# The scope of a parallel group

A group binds the names that the walk finds in its branches before the first branch is compiled, and puts
the scope back after each of them. So every branch starts in the same scope, whatever the branches before
it have bound, and what is in scope after the group is known without compiling any branch: the names that
were in scope, the names that the walk finds, and the names that take the results if the group merges
them.
-/
namespace FlowScript.Program

open Construct Pass

/-- The names that the walk finds in each branch of a group. -/
def branchNames (settings : Settings) (parallel : Parallel) : Except Fault (List (List String)) := do
  let levels ← settings.walkLevels
  parallel.branches.mapM fun branch => branch.flow.boundNames false levels

/-- One scope has the names of another and the given ones. -/
def Scope.Extends (base : Scope) (names : List String) (scope : Scope) : Prop :=
  ∀ n, n ∈ scope.names ↔ n ∈ base.names ∨ n ∈ names

/-- The texts of the lines that hoist names, without those of the blocks inside. -/
def hoistLines (b : Block) : List String :=
  b.filterMap fun
    | .line (.hoist name) => some (Statement.hoist name).code
    | _ => none

/-- The bodies of the branch functions, without those of the blocks inside. -/
def functionBodies (b : Block) : List Block :=
  b.filterMap fun
    | .block (.branch _) body => some body
    | _ => none

section Branches

variable {ctx : Context} {nested : Flow → Pass Block} {parallel : Parallel} {named : List NamedBranch}
variable {b : Block} {s s' : State}

/-! ## Names of the branches -/

theorem mapM_map_eq_ok {ε α β γ : Type} {f : β → Except ε γ} {g : α → β} {k : α → γ} {xs : List α}
    (h : ∀ x ∈ xs, f (g x) = .ok (k x)) : (xs.map g).mapM f = .ok (xs.map k) := by
  induction xs with
  | nil => rfl
  | cons x rest ih =>
    rw [List.map_cons, List.mapM_cons, h x List.mem_cons_self, ih fun y hy => h y (List.mem_cons_of_mem x hy)]
    rfl

theorem branchNames_of_nameBranches (hbranches : parallel.branches ≠ [])
    (h : nameBranches ctx parallel = .ok named) :
    branchNames ctx.settings parallel = .ok (named.map (·.names)) := by
  obtain ⟨hmap, hnames⟩ := nameBranches_spec h
  have hne : named ≠ [] := by
    rintro rfl
    exact hbranches hmap.symm
  obtain ⟨first, hfirst⟩ := List.exists_mem_of_ne_nil named hne
  obtain ⟨levels, hlevels, -⟩ := hnames first hfirst
  unfold branchNames
  rw [bind_eq_ok]
  refine ⟨levels, hlevels, ?_⟩
  rw [← hmap]
  apply mapM_map_eq_ok
  intro branch hbranch
  obtain ⟨levels', hlevels', hfound⟩ := hnames branch hbranch
  rw [hlevels] at hlevels'
  obtain rfl := Except.ok.inj hlevels'
  exact hfound

theorem nameBranches_of_branchNames {found : List (List String)}
    (h : branchNames ctx.settings parallel = .ok found) : ∃ named, nameBranches ctx parallel = .ok named := by
  obtain ⟨levels, hlevels, h⟩ := bind_eq_ok.mp h
  apply exists_results
  rintro ⟨branch, i⟩ hnumbered
  obtain ⟨names, -, hnames⟩ := exists_result_of_mem h (List.fst_mem_of_mem_zipIdx hnumbered)
  exact ⟨⟨branch, i, names⟩, bind_eq_ok.mpr ⟨levels, hlevels, bind_eq_ok.mpr ⟨names, hnames, rfl⟩⟩⟩

/-! ## Branches one after the other -/

/-- The function of a branch holds what the branch is compiled to from a scope. -/
def CompiledFrom (nested : Flow → Pass Block) (scope : Scope) (branch : Branch) (function : Block) : Prop :=
  ∃ before body after t t', function = before ++ body ++ after ∧ t.scope = scope ∧
    (nested branch.flow).Runs t body t'

/-- Every branch is compiled from the scope in which the first one starts, and this scope is left. -/
theorem BranchesRun.compiledFrom {merges : Bool} {group : Nat}
    (h : BranchesRun nested merges group named s b s') : s'.scope = s.scope ∧
      List.Forall₂ (CompiledFrom nested s.scope) (named.map (·.branch)) (functionBodies b) := by
  induction h with
  | nil => exact ⟨rfl, .nil⟩
  | cons hn _ _ ih =>
    obtain ⟨hscope, hall⟩ := ih
    exact ⟨hscope, .cons ⟨_, _, _, _, _, rfl, rfl, hn⟩ hall⟩

/-- A branch can be compiled from every state with a scope, and has a result if it is asked for one. -/
structure CanCompile (nested : Flow → Pass Block) (merges : Bool) (scope : Scope) (branch : Branch) : Prop where
  body : ∀ t, t.scope = scope → ∃ body t', (nested branch.flow).Runs t body t'
  result : merges = true → ∃ last, branch.flow.lastBoundName? = .ok last

theorem branchEnd_runs {merges : Bool} {flow : Flow} (h : merges = true → ∃ last, flow.lastBoundName? = .ok last)
    (names : List String) (body : Block) (s : State) :
    ∃ ending, (branchEnd merges flow names body).Runs s ending s := by
  unfold branchEnd
  by_cases hmerges : merges = true
  · obtain ⟨last, hlast⟩ := h hmerges
    rw [if_pos hmerges]
    exact ⟨_, runs_bind.mpr ⟨last, s, runs_lift.mpr ⟨hlast, rfl⟩, runs_pure.mpr ⟨rfl, rfl⟩⟩⟩
  · rw [if_neg hmerges]
    exact ⟨_, runs_pure.mpr ⟨rfl, rfl⟩⟩

theorem branchBlock_runs {merges : Bool} {branch : NamedBranch} (group : Nat)
    (h : CanCompile nested merges s.scope branch.branch) :
    ∃ b s', s'.scope = s.scope ∧ (branchBlock nested merges group branch).Runs s b s' := by
  obtain ⟨body, t, hbody⟩ := h.body s rfl
  obtain ⟨ending, hending⟩ := branchEnd_runs h.result branch.names body { t with scope := s.scope }
  simp only [branchBlock, keepScope, runs_bind, runs_get, runs_modify, runs_pure]
  exact ⟨_, { t with scope := s.scope }, rfl, body, _, ⟨s, s, ⟨rfl, rfl⟩, body, t, hbody, (), _, rfl, rfl, rfl⟩,
    ending, _, hending, rfl, rfl⟩

/-- Branches that can be compiled from the scope in which the first one starts are all compiled. -/
theorem each_branchBlock_runs {merges : Bool} (group : Nat)
    (h : ∀ branch ∈ named, CanCompile nested merges s.scope branch.branch) :
    ∃ b s', (each (branchBlock nested merges group) named).Runs s b s' := by
  induction named generalizing s with
  | nil => exact ⟨[], s, runs_each_nil.mpr ⟨rfl, rfl⟩⟩
  | cons branch rest ih =>
    obtain ⟨first, t, hscope, hfirst⟩ := branchBlock_runs group (h branch List.mem_cons_self)
    have hrest : ∀ other ∈ rest, CanCompile nested merges t.scope other.branch := by
      intro other hother
      rw [hscope]
      exact h other (List.mem_cons_of_mem branch hother)
    obtain ⟨others, s', hothers⟩ := ih hrest
    exact ⟨first ++ others, s', runs_each_cons.mpr ⟨first, t, others, hfirst, hothers, rfl⟩⟩

/-! ## Names of the group -/

theorem hoist_runs (names : List String) (s : State) : ∃ b s', (hoist names).Runs s b s' := by
  induction names generalizing s with
  | nil => exact ⟨[], s, runs_pure.mpr ⟨rfl, rfl⟩⟩
  | cons name rest ih =>
    obtain ⟨others, s', hothers⟩ := ih { s with scope := s.scope.declare name }
    simp only [hoist, runs_bind, runs_get, runs_pure]
    exact ⟨_, s', s, s, ⟨rfl, rfl⟩, (), _, runs_modify.mpr rfl, others, s', hothers, rfl, rfl⟩

theorem declareAll_runs (names : List String) (s : State) : ∃ s', (declareAll names).Runs s () s' := by
  induction names generalizing s with
  | nil => exact ⟨s, runs_pure.mpr ⟨rfl, rfl⟩⟩
  | cons name rest ih =>
    obtain ⟨s', hs'⟩ := ih { s with scope := s.scope.declare name }
    exact ⟨s', runs_bind.mpr ⟨(), _, runs_modify.mpr rfl, hs'⟩⟩

theorem hoistLines_append (a b : Block) : hoistLines (a ++ b) = hoistLines a ++ hoistLines b :=
  List.filterMap_append

theorem functionBodies_append (a b : Block) : functionBodies (a ++ b) = functionBodies a ++ functionBodies b :=
  List.filterMap_append

theorem hoistLines_hoisted (names : List String) :
    hoistLines (names.map fun n => .line (.hoist n)) = names.map (· ++ " = None") := by
  induction names with
  | nil => rfl
  | cons name rest ih => exact congrArg (_ :: ·) ih

theorem functionBodies_hoisted (names : List String) :
    functionBodies (names.map fun n => .line (.hoist n)) = [] := by
  induction names with
  | nil => rfl
  | cons name rest ih => exact ih

theorem hoistLines_afterHoisted (hoisted : Block) : hoistLines (afterHoisted hoisted) = [] := by
  unfold afterHoisted
  split_ifs <;> rfl

theorem functionBodies_afterHoisted (hoisted : Block) : functionBodies (afterHoisted hoisted) = [] := by
  unfold afterHoisted
  split_ifs <;> rfl

theorem BranchesRun.hoistLines {merges : Bool} {group : Nat}
    (h : BranchesRun nested merges group named s b s') : hoistLines b = [] := by
  induction h with
  | nil => rfl
  | cons _ _ _ ih => exact ih

/-- A group is compiled if each of its branches can be compiled from the scope that all of them start in. -/
theorem groupBlock_runs {found : List (List String)} (hbranches : parallel.branches ≠ [])
    (hfound : branchNames ctx.settings parallel = .ok found)
    (hcan : ∀ scope, s.scope.Extends found.flatten scope →
      ∀ branch ∈ parallel.branches, CanCompile nested parallel.merges scope branch) :
    ∃ b s', (groupBlock ctx nested parallel).Runs s b s' := by
  obtain ⟨named, hnamed⟩ := nameBranches_of_branchNames hfound
  have hnames := branchNames_of_nameBranches hbranches hnamed
  rw [hfound] at hnames
  obtain rfl := Except.ok.inj hnames
  obtain ⟨hoisted, s₂, hh⟩ := hoist_runs (named.flatMap (·.names)) (opened s)
  have hextends : s.scope.Extends (named.map (·.names)).flatten s₂.scope := by
    rw [← List.flatMap_def]
    exact (hoist_spec hh).2.scope
  have hcompile : ∀ branch ∈ named, CanCompile nested parallel.merges s₂.scope branch.branch := by
    intro branch hbranch
    apply hcan s₂.scope hextends
    rw [← (nameBranches_spec hnamed).1]
    exact List.mem_map_of_mem hbranch
  obtain ⟨functions, s₃, hf⟩ := each_branchBlock_runs (opened s).groups hcompile
  obtain ⟨s', ho⟩ := declareAll_runs parallel.outputs s₃
  exact ⟨_, s', runs_groupBlock.mpr ⟨named, hoisted, s₂, functions, s₃, hnamed, hh, hf, ho, rfl⟩⟩

end Branches

/-- The hoist lines of a group stand first and bind, once each, the found names that are not in scope. All
branches are compiled from one scope, which has the names in scope and the found ones, and after the group
nothing but these and the names of the merged results is in scope. The group is compiled whenever its branches
can be compiled from such a scope. -/
theorem group_scope_exact {step : Step} {parallel : Parallel} (hread : Parallel.read? step = some parallel)
    (hbranches : parallel.branches ≠ []) (ctx : Context) (nested : Flow → Pass Block) (s : State) :
    (∀ b s', (parallelBlock ctx nested step).Runs s b s' →
      ∃ found, branchNames ctx.settings parallel = .ok found ∧
        (∃ rest, b = ((found.flatten.filter (· ∉ s.scope.names)).eraseDups.map fun n => .line (.hoist n)) ++ rest) ∧
        hoistLines b = (found.flatten.filter (· ∉ s.scope.names)).eraseDups.map (· ++ " = None") ∧
        (∃ scope, s.scope.Extends found.flatten scope ∧
          List.Forall₂ (CompiledFrom nested scope) parallel.branches (functionBodies b)) ∧
        s.scope.Extends (found.flatten ++ mergedOutputs step) s'.scope) ∧
    ∀ found, branchNames ctx.settings parallel = .ok found →
      (∀ scope, s.scope.Extends found.flatten scope →
        ∀ branch ∈ parallel.branches, CanCompile nested parallel.merges scope branch) →
      ∃ b s', (parallelBlock ctx nested step).Runs s b s' := by
  have hblock : parallelBlock ctx nested step = groupBlock ctx nested parallel := by
    simp [parallelBlock, hread, hbranches]
  have houtputs : mergedOutputs step = parallel.outputs := by simp [mergedOutputs, hread]
  rw [hblock, houtputs]
  constructor
  · intro b s' h
    obtain ⟨named, hoisted, s₂, functions, s₃, hnamed, hh, hf, ho, rfl⟩ := runs_groupBlock.mp h
    obtain ⟨rfl, hhoisted⟩ := hoist_spec hh
    have hrun := branchesRun_of_each hf
    obtain ⟨hscope, hall⟩ := hrun.compiledFrom
    have hmerged := binds_of_declareAll ho
    refine ⟨_, branchNames_of_nameBranches hbranches hnamed, ?_⟩
    rw [← List.flatMap_def, ← distinctFrom_eq_eraseDups]
    refine ⟨⟨_, by rw [List.append_assoc, List.append_assoc]; rfl⟩, ?_, ⟨s₂.scope, hhoisted.scope, ?_⟩, fun n => ?_⟩
    · simp only [hoistLines_append, hoistLines_hoisted, hoistLines_afterHoisted, hrun.hoistLines]
      simp [hoistLines, opened]
    · rw [(nameBranches_spec hnamed).1] at hall
      simp only [functionBodies_append, functionBodies_hoisted, functionBodies_afterHoisted]
      simpa [functionBodies] using hall
    · rw [hmerged.scope, hscope, hhoisted.scope, List.mem_append, or_assoc]
      rfl
  · exact fun found hfound hcan => groupBlock_runs hbranches hfound hcan

/-- A group that merges the results of two branches, the first of which has a loop. -/
def mergingStep : Step :=
  [(.text "parallel", .map [(.text "waitAll", .bool true), (.text "tasks", .list [
    .map [(.text "flow", .list [
      .map [(.text "variables", .map [(.text "a", .int 1), (.text "b", .int 2)])],
      .map [(.text "loop", .map [(.text "type", .text "for"), (.text "in", .list [.int 1]), (.text "as", .text "row"),
        (.text "flow", .list [.map [(.text "variables", .map [(.text "c", .int 3)])]])])]])],
    .map [(.text "as", .text "out"), (.text "flow", .list [
      .map [(.text "variables", .map [(.text "b", .int 4), (.text "d", .int 5)])]])]])])]

theorem mergingStep_scope_exact : ∃ parallel b s', Parallel.read? mergingStep = some parallel ∧
    parallel.branches ≠ [] ∧
    (parallelBlock {} (flowBlock {} 5) mergingStep).Runs { scope := ⟨["a"]⟩ } b s' ∧
    hoistLines b = ["b = None", "c = None", "d = None"] ∧
    ∀ n, n ∈ s'.scope.names ↔ n ∈ ["a"] ∨ n ∈ ["a", "b", "c", "b", "d"] ++ ["result_0", "out"] := by
  have hok : ((parallelBlock {} (flowBlock {} 5) mergingStep).run { scope := ⟨["a"]⟩ }).toOption.isSome = true := by
    decide +kernel
  obtain ⟨parallel, hread⟩ : ∃ parallel, Parallel.read? mergingStep = some parallel := ⟨_, rfl⟩
  have hbranches : parallel.branches ≠ [] := by
    obtain rfl := Option.some.inj hread
    exact List.cons_ne_nil _ _
  have hnames : branchNames {} parallel = .ok [["a", "b", "c"], ["b", "d"]] := by
    obtain rfl := Option.some.inj hread
    decide +kernel
  cases hrun : (parallelBlock {} (flowBlock {} 5) mergingStep).run { scope := ⟨["a"]⟩ } with
  | error f => simp [hrun, Except.toOption] at hok
  | ok result =>
    obtain ⟨found, hfound, -, hlines, -, hscope⟩ :=
      (group_scope_exact hread hbranches {} (flowBlock {} 5) { scope := ⟨["a"]⟩ }).1 result.1 result.2 hrun
    obtain rfl := Except.ok.inj (hnames.symm.trans hfound)
    exact ⟨parallel, result.1, result.2, hread, hbranches, hrun, hlines, hscope⟩

end FlowScript.Program
