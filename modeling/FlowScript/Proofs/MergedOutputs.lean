import FlowScript.Proofs.Groups

/-!
# Where a merging group leaves its results

A merging group unpacks the results of its branches into one variable for each branch: the name that the
branch gives, or else a name made up from its position. The names that are given and the names that are made
up come from the same alphabet, and neither is looked at when the other is chosen. The main statement is that
a group whose given names are different keeps all of its results exactly if no given name is the one that is
made up for a branch without a name.
-/
namespace FlowScript.Construct

/-- The name that a branch gives to its result, if it can be a variable. -/
def Branch.givenName? (branch : Branch) : Option String := branch.outputName.filter isIdentifier

namespace Parallel

/-- The variable for the result of a branch without a name. -/
def madeUpName (i : Nat) : String := "result_" ++ Number.natText i

def givenNames (group : Parallel) : List String := group.branches.filterMap Branch.givenName?

/-- No branch gives the name that is made up for another one. -/
def KeepsApart (group : Parallel) : Prop :=
  ∀ i branch, group.branches[i]? = some branch → branch.givenName? = none → madeUpName i ∉ group.givenNames

theorem outputName_eq (branch : Branch) (i : Nat) :
    outputName branch i = branch.givenName?.getD (madeUpName i) := by
  unfold outputName Branch.givenName? madeUpName
  cases branch.outputName with
  | none => rfl
  | some name => by_cases h : isIdentifier name = true <;> simp [Option.filter, h]

theorem madeUpName_injective : Function.Injective madeUpName := fun _ _ h =>
  Number.natText_injective ((String.append_right_inj _).mp h)

variable {group : Parallel}

theorem getElem?_outputs (hmerges : group.merges = true) (i : Nat) :
    group.outputs[i]? = group.branches[i]?.map fun branch => outputName branch i := by
  rw [outputs, if_pos hmerges, List.getElem?_map, List.getElem?_zipIdx, Option.map_map, Nat.zero_add]
  rfl

/-- Different branches give different names. -/
theorem position_unique (hgiven : group.givenNames.Nodup) {i j : Nat} {first second : Branch} {name : String}
    (hi : group.branches[i]? = some first) (hj : group.branches[j]? = some second)
    (hfirst : first.givenName? = some name) (hsecond : second.givenName? = some name) : i = j := by
  have hpairwise := List.pairwise_filterMap.mp hgiven
  have hlt {i j : Nat} {first second : Branch} (hi : group.branches[i]? = some first)
      (hj : group.branches[j]? = some second) (hfirst : first.givenName? = some name)
      (hsecond : second.givenName? = some name) : ¬ i < j := by
    intro hlt
    obtain ⟨hilength, rfl⟩ := List.getElem?_eq_some_iff.mp hi
    obtain ⟨hjlength, rfl⟩ := List.getElem?_eq_some_iff.mp hj
    exact List.pairwise_iff_getElem.mp hpairwise i j hilength hjlength hlt name hfirst name hsecond rfl
  have hle := hlt hi hj hfirst hsecond
  have hge := hlt hj hi hsecond hfirst
  omega

/-- Two branches with the same output are the same, or one gives the name that is made up for the other. -/
theorem keepsApart_iff (hmerges : group.merges = true) (hgiven : group.givenNames.Nodup) :
    group.outputs.Nodup ↔ group.KeepsApart := by
  constructor
  · intro hnodup i branch hi hnone hmem
    obtain ⟨other, hother, hname⟩ := List.mem_filterMap.mp hmem
    obtain ⟨j, hj, rfl⟩ := List.mem_iff_getElem.mp hother
    have hj' := List.getElem?_eq_getElem hj
    have hmadeUp : group.outputs[i]? = some (madeUpName i) := by
      rw [getElem?_outputs hmerges, hi, Option.map_some, outputName_eq, hnone, Option.getD_none]
    have hgivenName : group.outputs[j]? = some (madeUpName i) := by
      rw [getElem?_outputs hmerges, hj', Option.map_some, outputName_eq, hname, Option.getD_some]
    obtain ⟨hlength, -⟩ := List.getElem?_eq_some_iff.mp hmadeUp
    obtain rfl : i = j := (List.getElem?_inj hlength hnodup).mp (hmadeUp.trans hgivenName.symm)
    rw [hj'] at hi
    obtain rfl := Option.some.inj hi
    cases hnone.symm.trans hname
  · intro hapart
    rw [List.nodup_iff_getElem?_ne_getElem?]
    intro i j hij hj heq
    rw [length_outputs, if_pos hmerges] at hj
    have hi' := List.getElem?_eq_getElem (Nat.lt_trans hij hj)
    have hj' := List.getElem?_eq_getElem hj
    rw [getElem?_outputs hmerges, getElem?_outputs hmerges, hi', hj', Option.map_some, Option.map_some,
      Option.some.injEq, outputName_eq, outputName_eq] at heq
    have hmem {k : Nat} {branch : Branch} {name : String} (hk : group.branches[k]? = some branch)
        (hname : branch.givenName? = some name) : name ∈ group.givenNames :=
      List.mem_filterMap.mpr ⟨branch, List.mem_of_getElem? hk, hname⟩
    -- The same output is given twice, given once and made up once, or made up twice.
    cases hfirst : group.branches[i].givenName? with
    | some name =>
      cases hsecond : group.branches[j].givenName? with
      | some other =>
        rw [hfirst, hsecond, Option.getD_some, Option.getD_some] at heq
        subst heq
        exact absurd (position_unique hgiven hi' hj' hfirst hsecond) (Nat.ne_of_lt hij)
      | none =>
        rw [hfirst, hsecond, Option.getD_some, Option.getD_none] at heq
        exact hapart j _ hj' hsecond (heq ▸ hmem hi' hfirst)
    | none =>
      cases hsecond : group.branches[j].givenName? with
      | some other =>
        rw [hfirst, hsecond, Option.getD_some, Option.getD_none] at heq
        exact hapart i _ hi' hfirst (heq ▸ hmem hj' hsecond)
      | none =>
        rw [hfirst, hsecond, Option.getD_none, Option.getD_none] at heq
        exact absurd (madeUpName_injective heq) (Nat.ne_of_lt hij)

end Parallel

/-! ## Unpacking -/

section Unpacking

variable {α : Type} {names : List String} {results : List α} {before : String → Option α}

/-- What variables hold after results were assigned to names, one after the other. -/
def unpacked (names : List String) (results : List α) (before : String → Option α) : String → Option α :=
  (names.zip results).foldl (fun store entry => Function.update store entry.1 (some entry.2)) before

theorem unpacked_of_not_mem {name : String} (h : name ∉ names) : unpacked names results before name = before name := by
  induction names generalizing results before with
  | nil => rfl
  | cons first names ih =>
    rw [List.mem_cons, not_or] at h
    cases results with
    | nil => rfl
    | cons result results =>
      change unpacked names results (Function.update before first (some result)) name = _
      rw [ih h.2, Function.update_of_ne h.1]

/-- Variables with different names hold the results of their positions. -/
theorem unpacked_getElem? (hnodup : names.Nodup) {i : Nat} {name : String} {result : α} (hname : names[i]? = some name)
    (hresult : results[i]? = some result) : unpacked names results before name = some result := by
  induction names generalizing results before i with
  | nil => cases hname
  | cons first names ih =>
    obtain ⟨hfirst, hnodup⟩ := List.nodup_cons.mp hnodup
    cases results with
    | nil => cases hresult
    | cons head results =>
      change unpacked names results (Function.update before first (some head)) name = _
      cases i with
      | zero =>
        obtain rfl := Option.some.inj hname
        obtain rfl := Option.some.inj hresult
        rw [unpacked_of_not_mem hfirst, Function.update_self]
      | succ i => exact ih hnodup hname hresult

/-- Variables that hold all results, whatever these are, have different names. -/
theorem nodup_of_unpacked
    (h : ∀ (results : List Value) before, results.length = names.length → ∀ (i : Nat) name result,
      names[i]? = some name → results[i]? = some result → unpacked names results before name = some result) :
    names.Nodup := by
  rw [List.nodup_iff_getElem?_ne_getElem?]
  intro i j hij hj heq
  have hj' := List.getElem?_eq_getElem hj
  -- Every position has its own number for a result.
  have hnumber {k : Nat} (hk : k < names.length) :
      ((List.range names.length).map fun n : Nat => Value.int n)[k]? = some (Value.int k) := by
    rw [List.getElem?_map, List.getElem?_range hk, Option.map_some]
  have hstored := h ((List.range names.length).map fun n : Nat => Value.int n) (fun _ => none) (by simp)
  have hfirst := hstored i _ _ (heq.trans hj') (hnumber (Nat.lt_trans hij hj))
  have hsecond := hstored j _ _ hj' (hnumber hj)
  rw [hfirst, Option.some.injEq, Value.int.injEq, Int.ofNat_inj] at hsecond
  exact absurd hsecond (Nat.ne_of_lt hij)

end Unpacking

/-! ## Groups -/

open Program Pass

theorem mergedOutputs_eq {step : Step} {group : Parallel} (hread : Parallel.read? step = some group) :
    mergedOutputs step = group.outputs := by
  rw [mergedOutputs, hread, Option.elim_some]

theorem parallelBlock_joins {ctx : Context} {nested : Flow → Pass Block} {step : Step} {group : Parallel} {b : Block}
    {s s' : State} (hread : Parallel.read? step = some group) (hne : group.branches ≠ [])
    (h : (parallelBlock ctx nested step).Runs s b s') :
    ∃ functions, functions.length = group.branches.length ∧
      b.getLast? = some (.line (.join (mergedOutputs step) functions)) := by
  simp only [parallelBlock, hread, if_neg (show ¬ group.branches.isEmpty = true by simpa using hne)] at h
  obtain ⟨named, hoisted, s₂, functions, s₃, hnames, -, -, -, rfl⟩ := runs_groupBlock.mp h
  refine ⟨named.map fun b => branchFunction (opened s).groups b.index, ?_, ?_⟩
  · rw [List.length_map, ← (nameBranches_spec hnames).1, List.length_map]
  · rw [mergedOutputs_eq hread, List.getLast?_append, List.getLast?_singleton]
    rfl

/-- A merging group has one output for each branch, the name that the branch gives or else the one made up for its
position, and the line that ends the group unpacks into these outputs. If the
names that branches give are different, then the outputs are different, and every result is kept in its own
variable, exactly if no given name is made up for a branch without a name. -/
theorem results_kept_iff {step : Step} {group : Parallel} (hread : Parallel.read? step = some group)
    (hmerges : group.merges = true) (hgiven : group.givenNames.Nodup) :
    (mergedOutputs step).length = group.branches.length ∧
    (∀ (i : Nat) (branch : Branch), group.branches[i]? = some branch →
      (mergedOutputs step)[i]? = some (branch.givenName?.getD ("result_" ++ Number.natText i))) ∧
    ((mergedOutputs step).Nodup ↔ group.KeepsApart) ∧
    ((∀ (results : List Value) before, results.length = group.branches.length → ∀ (i : Nat) name result,
        (mergedOutputs step)[i]? = some name → results[i]? = some result →
          unpacked (mergedOutputs step) results before name = some result) ↔ group.KeepsApart) ∧
    ∀ ctx nested s b s', group.branches ≠ [] → (parallelBlock ctx nested step).Runs s b s' →
      ∃ functions, functions.length = group.branches.length ∧
        b.getLast? = some (.line (.join (mergedOutputs step) functions)) := by
  have hlength : (mergedOutputs step).length = group.branches.length := by
    rw [mergedOutputs_eq hread, Parallel.length_outputs, if_pos hmerges]
  have hapart : (mergedOutputs step).Nodup ↔ group.KeepsApart := by
    rw [mergedOutputs_eq hread, Parallel.keepsApart_iff hmerges hgiven]
  refine ⟨hlength, fun i branch hbranch => ?_, hapart, ⟨fun hkept => ?_, fun h results before _ i name result => ?_⟩,
    fun ctx nested s b s' hne hrun => parallelBlock_joins hread hne hrun⟩
  · rw [mergedOutputs_eq hread, Parallel.getElem?_outputs hmerges, hbranch, Option.map_some, Parallel.outputName_eq]
    rfl
  · rw [← hlength] at hkept
    exact hapart.mp (nodup_of_unpacked hkept)
  · exact unpacked_getElem? (hapart.mpr h)

/-- A group that merges the results of branches. -/
def mergingStep (branches : List Value) : Step :=
  [(.text "parallel", .map [(.text "merge_results", .bool true), (.text "tasks", .list branches)])]

/-- Branches that give the name of another position, no name, a name, and a text that is no name. -/
def mixedBranches : List Value := [
  .map [(.text "as", .text "result_2"), (.text "flow", .list [])],
  .map [(.text "flow", .list [])],
  .map [(.text "name", .text "title"), (.text "flow", .list [])],
  .map [(.text "name", .text "no name"), (.text "flow", .list [])]]

theorem mixedBranches_results_kept :
    mergedOutputs (mergingStep mixedBranches) = ["result_2", "result_1", "title", "result_3"] ∧
      ∃ group, Parallel.read? (mergingStep mixedBranches) = some group ∧ group.KeepsApart := by
  have houtputs : mergedOutputs (mergingStep mixedBranches) = ["result_2", "result_1", "title", "result_3"] := by
    decide +kernel
  have hnodup : (mergedOutputs (mergingStep mixedBranches)).Nodup := by rw [houtputs]; decide
  refine ⟨houtputs, _, rfl, ?_⟩
  exact (@results_kept_iff (mergingStep mixedBranches) _ rfl rfl (by decide +kernel)).2.2.1.mp hnodup

/-- The name that is made up for the second branch is the name that the first one gives. -/
def clashingBranches : List Value := [
  .map [(.text "name", .text "result_1"), (.text "flow", .list [])],
  .map [(.text "flow", .list [])]]

/-- Of two results that are unpacked into one variable the first is lost. -/
theorem clashing_result_lost :
    ∃ group, Parallel.read? (mergingStep clashingBranches) = some group ∧ group.merges = true ∧
      group.givenNames.Nodup ∧ mergedOutputs (mergingStep clashingBranches) = ["result_1", "result_1"] ∧
      ¬ (mergedOutputs (mergingStep clashingBranches)).Nodup ∧
      unpacked (mergedOutputs (mergingStep clashingBranches)) [Value.int 1, .int 2] (fun _ => none) "result_1" =
        some (.int 2) := by
  have houtputs : mergedOutputs (mergingStep clashingBranches) = ["result_1", "result_1"] := by decide +kernel
  rw [houtputs]
  exact ⟨_, rfl, rfl, by decide +kernel, rfl, by decide, rfl⟩

end FlowScript.Construct
