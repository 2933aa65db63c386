import FlowScript.Proofs.Locations

/-!
# Levels and pruning

A walk is bounded in two ways: it enters a number of levels, and it leaves out what is below the steps that
it does not enter. Both only leave visits out. With fewer levels exactly the visits remain that lie above
the last of them, without entering a step exactly those go that are below it, and all others stay in their
order. A walk that meets no limit has visited everything.
-/
namespace FlowScript

/-- A step lies in a flow at a depth: in the flow itself, or one deeper than in a flow that one of its steps
owns. -/
inductive Flow.Nests : Flow → String → Nat → Walk.Visit → Prop
  | here {flow : Flow} {path : String} {visit : Walk.Visit} (h : visit ∈ flow.located path) :
      Nests flow path 0 visit
  | inside {flow : Flow} {path : String} {depth : Nat} {owner visit : Walk.Visit} {child : Step.Child}
      (howner : owner ∈ flow.located path) (hchild : child ∈ owner.step.nestedFlows)
      (h : Nests child.flow (owner.path ++ child.suffix) depth visit) : Nests flow path (depth + 1) visit

/-- A step is above another one that lies in a flow it owns, at any depth. -/
def Walk.Visit.Above (owner visit : Walk.Visit) : Prop :=
  ∃ child ∈ owner.step.nestedFlows, ∃ depth,
    child.flow.Nests (owner.path ++ child.suffix) depth visit

namespace Flow

open Walk

variable {enters : Visit → Bool} {levels depth : Nat} {flow : Flow} {path : String} {visit owner : Visit}

/-! ## Depths -/

theorem Nests.path_eq (h : flow.Nests path depth visit) : ∃ rest, visit.path = path ++ rest := by
  induction h with
  | here h => exact path_of_mem_located h
  | @inside _ path _ owner _ child howner _ _ ih =>
    obtain ⟨front, hfront⟩ := path_of_mem_located howner
    obtain ⟨rest, hrest⟩ := ih
    exact ⟨front ++ child.suffix ++ rest, by simp only [hrest, hfront, String.append_assoc]⟩

theorem above_path (h : owner.Above visit) : ∃ rest, rest ≠ "" ∧ visit.path = owner.path ++ rest := by
  obtain ⟨child, hchild, depth, h⟩ := h
  obtain ⟨rest, hrest⟩ := h.path_eq
  refine ⟨child.suffix ++ rest, fun he => Step.suffix_ne_empty hchild ?_, ?_⟩
  · exact (String.append_eq_empty_iff.mp he).1
  · rw [hrest, String.append_assoc]

/-- No step of a flow is above another one of it. -/
theorem not_above_located (howner : owner ∈ flow.located path) (h : visit ∈ flow.located path) :
    ¬ owner.Above visit := by
  intro habove
  obtain ⟨rest, hrest, hpath⟩ := above_path habove
  have hpaths : visit.path ++ "" = owner.path ++ rest := by rw [String.append_empty, hpath]
  rw [located_unique h howner hpaths] at hpath
  exact hrest (String.append_eq_left_iff.mp hpath.symm)

/-- A step lies at one depth only. -/
theorem Nests.depth_unique (h : flow.Nests path depth visit) {depth' : Nat}
    (h' : flow.Nests path depth' visit) : depth = depth' := by
  induction h generalizing depth' with
  | here h =>
    cases h' with
    | here => rfl
    | inside howner hchild hbelow => exact absurd ⟨_, hchild, _, hbelow⟩ (not_above_located howner h)
  | @inside _ _ _ owner _ child howner hchild hbelow ih =>
    cases h' with
    | here h => exact absurd ⟨_, hchild, _, hbelow⟩ (not_above_located howner h)
    | @inside _ _ _ owner' _ child' howner' hchild' hbelow' =>
      obtain ⟨rest, hrest⟩ := hbelow.path_eq
      obtain ⟨rest', hrest'⟩ := hbelow'.path_eq
      have hpaths : owner.path ++ (child.suffix ++ rest) = owner'.path ++ (child'.suffix ++ rest') := by
        rw [← String.append_assoc, ← String.append_assoc, ← hrest, ← hrest']
      obtain rfl := located_unique howner howner' hpaths
      obtain rfl := Step.child_unique hchild hchild' ((String.append_right_inj _).mp hpaths)
      rw [ih hbelow']

/-- What is below a step lies deeper. -/
theorem Nests.deeper (h : flow.Nests path depth owner) (habove : owner.Above visit) :
    ∃ deeper, depth < deeper ∧ flow.Nests path deeper visit := by
  induction h with
  | here h =>
    obtain ⟨child, hchild, below, hbelow⟩ := habove
    exact ⟨below + 1, Nat.succ_pos below, .inside h hchild hbelow⟩
  | inside howner hchild _ ih =>
    obtain ⟨deeper, hlt, hnests⟩ := ih habove
    exact ⟨deeper + 1, Nat.succ_lt_succ hlt, .inside howner hchild hnests⟩

/-! ## Visits -/

theorem visits_walkWhere (enters : Visit → Bool) (levels : Nat) (flow : Flow) (path : String) :
    visits (flow.walkWhere enters (levels + 1) path) = (flow.located path).flatMap fun visit =>
      visit :: visits (Walk.below enters levels visit) := by
  rw [walkWhere_located, visits_flatMap]
  rfl

theorem visits_below_of_enters (henters : enters owner = true) :
    visits (Walk.below enters levels owner) = owner.step.nestedFlows.flatMap fun child =>
      visits (child.flow.walkWhere enters levels (owner.path ++ child.suffix)) := by
  rw [Walk.below, if_pos henters, visits_flatMap]

theorem visits_below_of_not_enters (henters : enters owner = false) :
    visits (Walk.below enters levels owner) = [] := by
  rw [Walk.below, henters]
  rfl

theorem mem_visits_succ : visit ∈ visits (flow.walkWhere enters (levels + 1) path) ↔
    ∃ owner ∈ flow.located path, visit = owner ∨ enters owner = true ∧
      ∃ child ∈ owner.step.nestedFlows,
        visit ∈ visits (child.flow.walkWhere enters levels (owner.path ++ child.suffix)) := by
  rw [visits_walkWhere, List.mem_flatMap]
  refine exists_congr fun owner => and_congr_right fun _ => ?_
  rw [List.mem_cons]
  refine or_congr_right ?_
  cases henters : enters owner with
  | false => simp [visits_below_of_not_enters henters]
  | true => simp [visits_below_of_enters henters]

/-- The levels that a walk enters bound the depth of its visits. -/
theorem nests_of_mem_visits (h : visit ∈ visits (flow.walkWhere enters levels path)) :
    ∃ depth < levels, flow.Nests path depth visit := by
  induction levels generalizing flow path with
  | zero => cases h
  | succ levels ih =>
    obtain ⟨owner, howner, rfl | ⟨-, child, hchild, h⟩⟩ := mem_visits_succ.mp h
    · exact ⟨0, Nat.succ_pos levels, .here howner⟩
    · obtain ⟨depth, hdepth, hnests⟩ := ih h
      exact ⟨depth + 1, Nat.succ_lt_succ hdepth, .inside howner hchild hnests⟩

/-! ## Levels -/

/-- What lies in a flow of a step lies one deeper in the flow of the step. -/
theorem exists_depth_succ_iff (howner : owner ∈ flow.located path) {child : Step.Child}
    (hchild : child ∈ owner.step.nestedFlows)
    (hvisit : ∃ depth, child.flow.Nests (owner.path ++ child.suffix) depth visit) :
    (∃ depth < levels + 1, flow.Nests path depth visit) ↔
      ∃ depth < levels, child.flow.Nests (owner.path ++ child.suffix) depth visit := by
  constructor
  · rintro ⟨depth, hdepth, hnests⟩
    obtain ⟨below, hbelow⟩ := hvisit
    have hdeeper := hnests.depth_unique (.inside howner hchild hbelow)
    exact ⟨below, by omega, hbelow⟩
  · rintro ⟨depth, hdepth, hnests⟩
    exact ⟨depth + 1, by omega, .inside howner hchild hnests⟩

open Classical in
/-- Fewer levels leave exactly the visits that are not too deep. -/
theorem visits_eq_filter_depth {fewer more : Nat} (hle : fewer ≤ more) (enters : Visit → Bool) (flow : Flow)
    (path : String) :
    visits (flow.walkWhere enters fewer path) = (visits (flow.walkWhere enters more path)).filter
      fun visit => decide (∃ depth < fewer, flow.Nests path depth visit) := by
  induction fewer generalizing more flow path with
  | zero =>
    have hnone : visits (flow.walkWhere enters 0 path) = [] := rfl
    rw [hnone, eq_comm, List.filter_eq_nil_iff]
    simp
  | succ fewer ih =>
    obtain ⟨more, rfl⟩ : ∃ n, more = n + 1 := ⟨more - 1, by omega⟩
    rw [visits_walkWhere, visits_walkWhere, List.filter_flatMap]
    refine List.flatMap_congr fun owner howner => ?_
    have hhere : ∃ depth < fewer + 1, flow.Nests path depth owner := ⟨0, by omega, .here howner⟩
    rw [List.filter_cons_of_pos (by simpa using hhere)]
    congr 1
    cases henters : enters owner with
    | false => rw [visits_below_of_not_enters henters, visits_below_of_not_enters henters, List.filter_nil]
    | true =>
      rw [visits_below_of_enters henters, visits_below_of_enters henters, List.filter_flatMap]
      refine List.flatMap_congr fun child hchild => ?_
      rw [ih (Nat.le_of_succ_le_succ hle)]
      refine List.filter_congr fun visit hvisit => ?_
      obtain ⟨depth, -, hnests⟩ := nests_of_mem_visits hvisit
      rw [decide_eq_decide]
      exact (exists_depth_succ_iff howner hchild ⟨depth, hnests⟩).symm

theorem limits_flatMap {α : Type} (xs : List α) (f : α → List Event) :
    limits (xs.flatMap f) = xs.flatMap fun x => limits (f x) := List.filterMap_flatMap

/-- A walk that meets no limit has nothing left to visit. -/
theorem walkWhere_eq_of_limits {fewer more : Nat} (hle : fewer ≤ more)
    (h : limits (flow.walkWhere enters fewer path) = []) :
    flow.walkWhere enters more path = flow.walkWhere enters fewer path := by
  induction fewer generalizing more flow path with
  | zero => cases h
  | succ fewer ih =>
    obtain ⟨more, rfl⟩ : ∃ n, more = n + 1 := ⟨more - 1, by omega⟩
    rw [walkWhere_located, limits_flatMap, List.flatMap_eq_nil_iff] at h
    rw [walkWhere_located, walkWhere_located]
    refine List.flatMap_congr fun owner howner => ?_
    have hbelow : limits (Walk.below enters fewer owner) = [] := h owner howner
    congr 1
    unfold Walk.below at hbelow ⊢
    split_ifs at hbelow ⊢
    · rw [limits_flatMap, List.flatMap_eq_nil_iff] at hbelow
      exact List.flatMap_congr fun child hchild => ih (Nat.le_of_succ_le_succ hle) (hbelow child hchild)
    · rfl

/-! ## Pruning -/

variable {pruned : Visit → Bool}

/-- Above a step in a flow of another step are this one and what is above it in the flow. -/
theorem eq_or_mem_of_above {above : Visit} (habove : above ∈ visits (flow.walkWhere enters (levels + 1) path))
    (howner : owner ∈ flow.located path) {child : Step.Child} (hchild : child ∈ owner.step.nestedFlows)
    (hvisit : visit ∈ visits (child.flow.walkWhere enters levels (owner.path ++ child.suffix)))
    (h : above.Above visit) :
    above = owner ∨ above ∈ visits (child.flow.walkWhere enters levels (owner.path ++ child.suffix)) := by
  obtain ⟨rest, -, hpath⟩ := above_path h
  obtain ⟨depth, -, hnests⟩ := nests_of_mem_visits hvisit
  obtain ⟨rest', hpath'⟩ := hnests.path_eq
  obtain ⟨first, hfirst, rfl | ⟨-, child', hchild', hbelow⟩⟩ := mem_visits_succ.mp habove
  · left
    have hpaths : above.path ++ rest = owner.path ++ (child.suffix ++ rest') := by
      rw [← hpath, hpath', String.append_assoc]
    exact located_unique hfirst howner hpaths
  · right
    obtain ⟨depth', -, hnests'⟩ := nests_of_mem_visits hbelow
    obtain ⟨more, hmore⟩ := hnests'.path_eq
    have hpaths : first.path ++ (child'.suffix ++ (more ++ rest)) = owner.path ++ (child.suffix ++ rest') :=
      calc first.path ++ (child'.suffix ++ (more ++ rest)) = above.path ++ rest := by
            simp only [hmore, String.append_assoc]
        _ = owner.path ++ (child.suffix ++ rest') := by rw [← hpath, hpath', String.append_assoc]
    obtain rfl := located_unique hfirst howner hpaths
    obtain rfl := Step.child_unique hchild' hchild ((String.append_right_inj _).mp hpaths)
    exact hbelow

/-- Nothing is above a step of the flow itself. -/
theorem not_above_of_located {above : Visit} (habove : above ∈ visits (flow.walkWhere enters levels path))
    (hvisit : visit ∈ flow.located path) : ¬ above.Above visit := by
  intro h
  obtain ⟨depth, -, hnests⟩ := nests_of_mem_visits habove
  obtain ⟨deeper, hlt, hdeeper⟩ := hnests.deeper h
  have htop := hdeeper.depth_unique (.here hvisit)
  omega

theorem above_of_mem_visits {child : Step.Child} (hchild : child ∈ owner.step.nestedFlows)
    (hvisit : visit ∈ visits (child.flow.walkWhere enters levels (owner.path ++ child.suffix))) :
    owner.Above visit := by
  obtain ⟨depth, -, hnests⟩ := nests_of_mem_visits hvisit
  exact ⟨child, hchild, depth, hnests⟩

/-- A visit in a flow of a step is left if the step is entered and nothing in the flow takes it away. -/
theorem not_above_iff (howner : owner ∈ flow.located path) (henters : enters owner = true) {child : Step.Child}
    (hchild : child ∈ owner.step.nestedFlows)
    (hvisit : visit ∈ visits (child.flow.walkWhere enters levels (owner.path ++ child.suffix))) :
    (∀ above ∈ visits (flow.walkWhere enters (levels + 1) path), pruned above = true → ¬ above.Above visit) ↔
      pruned owner = false ∧
        ∀ above ∈ visits (child.flow.walkWhere enters levels (owner.path ++ child.suffix)),
          pruned above = true → ¬ above.Above visit := by
  constructor
  · intro h
    refine ⟨?_, fun above habove => h above ?_⟩
    · by_contra hpruned
      have hmem : owner ∈ visits (flow.walkWhere enters (levels + 1) path) :=
        mem_visits_succ.mpr ⟨owner, howner, .inl rfl⟩
      exact h owner hmem (by simpa using hpruned) (above_of_mem_visits hchild hvisit)
    · exact mem_visits_succ.mpr ⟨owner, howner, .inr ⟨henters, child, hchild, habove⟩⟩
  · rintro ⟨hpruned, h⟩ above habove hp habove'
    rcases eq_or_mem_of_above habove howner hchild hvisit habove' with rfl | hbelow
    · rw [hp] at hpruned
      cases hpruned
    · exact h above hbelow hp habove'

open Classical in
/-- Steps that are no longer entered take exactly the visits below them away. -/
theorem visits_eq_filter_above (enters pruned : Visit → Bool) (levels : Nat) (flow : Flow) (path : String) :
    visits (flow.walkWhere (fun visit => enters visit && !pruned visit) levels path) =
      (visits (flow.walkWhere enters levels path)).filter fun visit =>
        decide (∀ above ∈ visits (flow.walkWhere enters levels path),
          pruned above = true → ¬ above.Above visit) := by
  induction levels generalizing flow path with
  | zero => rfl
  | succ levels ih =>
    rw [visits_walkWhere]
    conv_rhs =>
      arg 2
      rw [visits_walkWhere]
    rw [List.filter_flatMap]
    refine List.flatMap_congr fun owner howner => ?_
    have hhere : ∀ above ∈ visits (flow.walkWhere enters (levels + 1) path),
        pruned above = true → ¬ above.Above owner :=
      fun above habove _ => not_above_of_located habove howner
    rw [List.filter_cons_of_pos (by simpa using hhere)]
    congr 1
    cases henters : enters owner with
    | false =>
      rw [visits_below_of_not_enters henters, visits_below_of_not_enters (by simp [henters]), List.filter_nil]
    | true =>
      rw [visits_below_of_enters henters, List.filter_flatMap]
      cases hpruned : pruned owner with
      | true =>
        -- Everything below the step is taken away by the step itself.
        rw [visits_below_of_not_enters (by simp [hpruned]), eq_comm, List.flatMap_eq_nil_iff]
        intro child hchild
        rw [List.filter_eq_nil_iff]
        intro visit hvisit
        rw [decide_eq_true_iff, not_above_iff howner henters hchild hvisit, hpruned]
        exact fun h => Bool.noConfusion h.1
      | false =>
        rw [visits_below_of_enters (by simp [henters, hpruned])]
        refine List.flatMap_congr fun child hchild => ?_
        rw [ih]
        refine List.filter_congr fun visit hvisit => ?_
        rw [decide_eq_decide, not_above_iff howner henters hchild hvisit]
        exact (and_iff_right hpruned).symm

open Classical in
/-- Limits and steps that are not entered only leave visits out. Every visit has one depth, and under a lower
limit the visits remain whose depth is below it. Not entering further steps leaves out what is below one of
them. If no limit is met, a higher one makes no difference. -/
theorem walk_filtered (flow : Flow) (path : String) (enters pruned : Visit → Bool) (limit higher : Int)
    (hle : limit ≤ higher) :
    (∀ visit ∈ visits (flow.walkWhere enters higher.toNat path), ∃! depth, flow.Nests path depth visit) ∧
    visits (flow.walkWhere enters limit.toNat path) =
      (visits (flow.walkWhere enters higher.toNat path)).filter
        (fun visit => decide (∃ depth : Nat, depth < limit ∧ flow.Nests path depth visit)) ∧
    visits (flow.walkWhere (fun visit => enters visit && !pruned visit) limit.toNat path) =
      (visits (flow.walkWhere enters limit.toNat path)).filter
        (fun visit => decide (∀ above ∈ visits (flow.walkWhere enters limit.toNat path),
          pruned above = true → ¬ above.Above visit)) ∧
    (limits (flow.walkWhere enters limit.toNat path) = [] →
      visits (flow.walkWhere enters higher.toNat path) = visits (flow.walkWhere enters limit.toNat path)) := by
  have hlevels : limit.toNat ≤ higher.toNat := Int.toNat_le_toNat hle
  refine ⟨fun visit hvisit => ?_, ?_, visits_eq_filter_above enters pruned limit.toNat flow path, fun h => ?_⟩
  · obtain ⟨depth, -, hnests⟩ := nests_of_mem_visits hvisit
    exact ⟨depth, hnests, fun _ hother => hother.depth_unique hnests⟩
  · simp only [← Int.lt_toNat]
    exact visits_eq_filter_depth hlevels enters flow path
  · rw [walkWhere_eq_of_limits hlevels h]

/-- A loop in one branch of a conditional, an action in the other, an entry that is no step and an action. -/
def branchingFlow : Flow :=
  [.map [(.text "logic", .map [
      (.text "then", .list [.map [(.text "loop", .map [(.text "flow", .list [.map [(.text "ai", .text "tap")]])])]]),
      (.text "else", .list [.map [(.text "ai", .text "wait")]])])],
    .null, .map [(.text "ai", .text "stop")]]

open Classical in
theorem branchingFlow_walk_filtered :
    (visits (branchingFlow.walkWhere (fun _ => true) 3 "/f")).map (·.path) =
      ["/f[0]", "/f[0]/logic/then[0]", "/f[0]/logic/then[0]/loop/flow[0]", "/f[0]/logic/else[0]", "/f[2]"] ∧
    (visits (branchingFlow.walkWhere (fun _ => true) 2 "/f")).length = 4 ∧
    visits (branchingFlow.walkWhere (fun _ => true) 2 "/f") =
      (visits (branchingFlow.walkWhere (fun _ => true) 3 "/f")).filter
        (fun visit => decide (∃ depth : Nat, (depth : Int) < 2 ∧ branchingFlow.Nests "/f" depth visit)) ∧
    limits (branchingFlow.walkWhere (fun _ => true) 3 "/f") = [] ∧
    visits (branchingFlow.walkWhere (fun _ => true) 9 "/f") =
      visits (branchingFlow.walkWhere (fun _ => true) 3 "/f") := by
  have hlimits : limits (branchingFlow.walkWhere (fun _ => true) 3 "/f") = [] := by decide +kernel
  have htwo := walk_filtered branchingFlow "/f" (fun _ => true) (fun _ => false) 2 3 (by decide)
  have hthree := walk_filtered branchingFlow "/f" (fun _ => true) (fun _ => false) 3 9 (by decide)
  exact ⟨by decide +kernel, by decide +kernel, htwo.2.1, hlimits, hthree.2.2.2 hlimits⟩

end Flow

end FlowScript
