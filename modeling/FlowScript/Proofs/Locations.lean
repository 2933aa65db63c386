import FlowScript.Proofs.Defined
import Mathlib.Data.List.Nodup
import Mathlib.Data.List.Pairwise

/-!
# Locations of a walk

A step is located by the path of its flow and its position there, and a flow that it owns by what the step
appends to its own path. Two paths that leave a common beginning at different positions, or by different
flows of a step, never meet again. So the locations that a walk reports are pairwise different, whatever
steps it enters, and a location says which step is meant.
-/
namespace FlowScript

/-! ## Texts that part -/

/-- No text starts with both. -/
def Apart (a b : String) : Prop := ∀ rest rest' : String, a ++ rest ≠ b ++ rest'

namespace Apart

variable {a b : String}

protected theorem symm (h : Apart a b) : Apart b a := fun rest rest' he => h rest' rest he.symm

/-- What goes before does not matter. -/
theorem append_left (h : Apart a b) (front : String) : Apart (front ++ a) (front ++ b) := by
  intro rest rest' he
  rw [String.append_assoc, String.append_assoc, String.append_right_inj] at he
  exact h rest rest' he

/-- What follows does not matter. -/
theorem append_right (h : Apart a b) (more more' : String) : Apart (a ++ more) (b ++ more') := by
  intro rest rest' he
  rw [String.append_assoc, String.append_assoc] at he
  exact h (more ++ rest) (more' ++ rest') he

end Apart

/-- Texts of which neither starts with the other are apart. -/
theorem apart_of_not_prefix {a b : String} (h : a.toList.isPrefixOf b.toList = false)
    (h' : b.toList.isPrefixOf a.toList = false) : Apart a b := by
  intro rest rest' he
  have hlists : a.toList ++ rest.toList = b.toList ++ rest'.toList := by
    rw [← String.toList_append, ← String.toList_append, he]
  have hb : b.toList <+: a.toList ++ rest.toList := ⟨rest'.toList, hlists.symm⟩
  rcases List.prefix_or_prefix_of_prefix (List.prefix_append a.toList rest.toList) hb with hab | hba
  · exact absurd (List.isPrefixOf_iff_prefix.mpr hab) (by simp [h])
  · exact absurd (List.isPrefixOf_iff_prefix.mpr hba) (by simp [h'])

/-- Two texts that are both cut at the first of some characters are cut into the same parts. -/
theorem cut_unique (marks : Char → Bool) {a a' rest rest' : List Char} (ha : ∀ c ∈ a, marks c = false)
    (ha' : ∀ c ∈ a', marks c = false) (hrest : ∀ c ∈ rest.head?, marks c = true)
    (hrest' : ∀ c ∈ rest'.head?, marks c = true) (h : a ++ rest = a' ++ rest') : a = a' ∧ rest = rest' := by
  have hfirst {b more : List Char} (hb : ∀ c ∈ b, marks c = false)
      (hmore : ∀ c ∈ more.head?, marks c = true) : (b ++ more).takeWhile (fun c => !marks c) = b := by
    rw [List.takeWhile_append_of_pos fun c hc => by rw [hb c hc]; rfl]
    cases more with
    | nil => exact List.append_nil b
    | cons c cs =>
      have hc : marks c = true := hmore c rfl
      rw [List.takeWhile_cons_of_neg (by simp [hc]), List.append_nil]
  have heq : a = a' := by
    rw [← hfirst ha hrest, ← hfirst ha' hrest', h]
  subst heq
  exact ⟨rfl, List.append_cancel_left h⟩

namespace Number

theorem isDigit_of_mem_natText {n : Nat} {c : Char} (h : c ∈ (natText n).toList) : c.isDigit = true := by
  rw [natText, String.toList_ofList] at h
  exact Nat.isDigit_of_mem_toDigits (by decide) (by decide) h

/-- A number ends where it is closed, so different numbers part. -/
theorem apart_closed {i j : Nat} (h : i ≠ j) : Apart (natText i ++ "]") (natText j ++ "]") := by
  intro rest rest' he
  have hclose (n : Nat) (more : String) :
      (natText n ++ "]" ++ more).toList = (natText n).toList ++ ']' :: more.toList := by
    rw [String.toList_append, String.toList_append, List.append_assoc]
    rfl
  have hdigits (n : Nat) : ∀ c ∈ (natText n).toList, (c == ']') = false := by
    intro c hc
    have hdigit := isDigit_of_mem_natText hc
    rw [beq_eq_false_iff_ne]
    rintro rfl
    exact absurd hdigit (by decide)
  have hlists := congrArg String.toList he
  rw [hclose, hclose] at hlists
  have hcut := cut_unique (· == ']') (hdigits i) (hdigits j) (by simp) (by simp) hlists
  exact h (natText_injective (String.toList_injective hcut.1))

end Number

theorem Value.apart_itemPath {i j : Nat} (h : i ≠ j) (path : String) :
    Apart (itemPath path i) (itemPath path j) := by
  have hclosed := (Number.apart_closed h).append_left (path ++ "[")
  simpa only [itemPath, String.append_assoc] using hclosed

/-- What stands around the numbers does not matter. -/
theorem Number.apart_numbered {i j : Nat} (h : i ≠ j) (front back : String) :
    Apart (front ++ natText i ++ ("]" ++ back)) (front ++ natText j ++ ("]" ++ back)) := by
  have hclosed := ((Number.apart_closed h).append_left front).append_right back back
  simpa only [String.append_assoc] using hclosed

theorem apart_taskFlowPath {i j : Nat} (h : i ≠ j) : Apart (taskFlowPath i) (taskFlowPath j) :=
  Number.apart_numbered h "/tasks[" "/flow"

/-! ## Flows of a step -/

namespace Step

theorem apart_branchSuffix {i j : Nat} (h : i ≠ j) : Apart (branchSuffix i) (branchSuffix j) :=
  Number.apart_numbered h "/parallel/tasks[" "/flow"

/-- Entries of a list are numbered differently. -/
theorem pairwise_zipIdx {α : Type} (xs : List α) : xs.zipIdx.Pairwise fun n n' => n.2 ≠ n'.2 := by
  apply List.pairwise_map.mp
  rw [List.zipIdx_map_snd]
  exact List.nodup_range'

/-- The flows that a step owns are what is there of a list of named flows, whose names are apart. -/
theorem exists_named (step : Step) : ∃ named : List (String × Option Flow),
    step.nestedFlows = named.filterMap (fun n => child? n.1 n.2) ∧
      (named.map (·.1)).Pairwise Apart ∧ "" ∉ named.map (·.1) := by
  unfold nestedFlows
  cases step.kind with
  | logic =>
    have hthen : Apart "/logic/then" "/logic/else" := apart_of_not_prefix (by decide) (by decide)
    exact ⟨[("/logic/then", _), ("/logic/else", _)], rfl, by simpa using hthen, by simp⟩
  | loop => exact ⟨[("/loop/flow", _)], rfl, by simp, by simp⟩
  | guarded =>
    have hcatch : Apart "/try/flow" "/catch/flow" := apart_of_not_prefix (by decide) (by decide)
    have hfinally : Apart "/try/flow" "/finally/flow" := apart_of_not_prefix (by decide) (by decide)
    have hother : Apart "/catch/flow" "/finally/flow" := apart_of_not_prefix (by decide) (by decide)
    exact ⟨[("/try/flow", _), ("/catch/flow", _), ("/finally/flow", _)], rfl,
      by simp [hcatch, hfinally, hother], by simp⟩
  | parallel =>
    refine ⟨((step.get "parallel").branches?.getD []).zipIdx.map fun n => (branchSuffix n.2, n.1.flow?),
      ?_, ?_, ?_⟩
    · rw [List.filterMap_map]
      rfl
    · rw [List.map_map, List.pairwise_map]
      exact (pairwise_zipIdx _).imp apart_branchSuffix
    · simp only [List.map_map, List.mem_map, Function.comp_apply, not_exists, not_and]
      intro n _ hempty
      unfold branchSuffix at hempty
      exact absurd (String.append_eq_empty_iff.mp hempty).2 (by decide)
  | _ => exact ⟨[], rfl, .nil, by simp⟩

theorem nestedFlows_apart (step : Step) :
    step.nestedFlows.Pairwise fun child child' => Apart child.suffix child'.suffix := by
  obtain ⟨named, hnamed, hapart, -⟩ := step.exists_named
  rw [hnamed, List.pairwise_filterMap]
  refine (List.pairwise_map.mp hapart).imp fun hapart child hchild child' hchild' => ?_
  obtain ⟨flow, -, rfl⟩ := Option.map_eq_some_iff.mp hchild
  obtain ⟨flow', -, rfl⟩ := Option.map_eq_some_iff.mp hchild'
  exact hapart

theorem suffix_ne_empty {step : Step} {child : Child} (h : child ∈ step.nestedFlows) : child.suffix ≠ "" := by
  obtain ⟨named, hnamed, -, hempty⟩ := step.exists_named
  rw [hnamed] at h
  obtain ⟨n, hn, hchild⟩ := List.mem_filterMap.mp h
  obtain ⟨flow, -, rfl⟩ := Option.map_eq_some_iff.mp hchild
  intro hsuffix
  exact hempty (List.mem_map.mpr ⟨n, hn, hsuffix⟩)

/-- A path leads into one flow of a step at most. -/
theorem child_unique {step : Step} {child child' : Child} (h : child ∈ step.nestedFlows)
    (h' : child' ∈ step.nestedFlows) {rest rest' : String}
    (he : child.suffix ++ rest = child'.suffix ++ rest') : child = child' := by
  by_contra hne
  have hsymm : Std.Symm fun child child' : Child => Apart child.suffix child'.suffix :=
    ⟨fun _ _ hapart => hapart.symm⟩
  exact (nestedFlows_apart step).forall h h' hne rest rest' he

end Step

/-! ## Locations of a walk -/

namespace Walk

/-- Where an event takes place. -/
def Event.path : Event → String
  | .visit _ path => path
  | .limit path => path

/-- The places where a walk goes no deeper. -/
def limits (events : List Event) : List String :=
  events.filterMap fun
    | .visit .. => none
    | .limit path => some path

theorem visits_sublist (events : List Event) :
    ((visits events).map (·.path)).Sublist (events.map Event.path) := by
  induction events with
  | nil => exact .slnil
  | cons event rest ih =>
    cases event with
    | visit step path => exact ih.cons_cons path
    | limit path => exact ih.cons path

theorem limits_sublist (events : List Event) : (limits events).Sublist (events.map Event.path) := by
  induction events with
  | nil => exact .slnil
  | cons event rest ih =>
    cases event with
    | visit step path => exact ih.cons path
    | limit path => exact ih.cons_cons path

end Walk

/-- What a walk reports below a step, with a number of levels left. -/
def Walk.below (enters : Visit → Bool) (levels : Nat) (visit : Visit) : List Event :=
  if enters visit then
    visit.step.nestedFlows.flatMap fun child =>
      child.flow.walkWhere enters levels (visit.path ++ child.suffix)
  else []

namespace Flow

/-- The steps of a flow, each with its path. -/
def located (flow : Flow) (path : String) : List Walk.Visit :=
  flow.zipIdx.filterMap fun n => n.1.step?.map fun step => ⟨step, Value.itemPath path n.2⟩

/-- A walk visits the steps of the flow one after the other, and what is below each of them. -/
theorem walkWhere_located (enters : Walk.Visit → Bool) (levels : Nat) (flow : Flow) (path : String) :
    flow.walkWhere enters (levels + 1) path = (flow.located path).flatMap fun visit =>
      .visit visit.step visit.path :: Walk.below enters levels visit := by
  rw [walkWhere_succ, located]
  generalize flow.zipIdx = numbered
  induction numbered with
  | nil => rfl
  | cons n rest ih =>
    rw [List.flatMap_cons, ih]
    cases hstep : n.1.step? with
    | none => simp [hstep]
    | some step => simp [hstep, Walk.below]

theorem located_apart (flow : Flow) (path : String) :
    (flow.located path).Pairwise fun visit visit' => Apart visit.path visit'.path := by
  rw [located, List.pairwise_filterMap]
  refine (Step.pairwise_zipIdx flow).imp fun hne visit hvisit visit' hvisit' => ?_
  obtain ⟨step, -, rfl⟩ := Option.map_eq_some_iff.mp hvisit
  obtain ⟨step', -, rfl⟩ := Option.map_eq_some_iff.mp hvisit'
  exact Value.apart_itemPath hne path

variable {enters : Walk.Visit → Bool} {levels : Nat} {flow : Flow} {path : String}

/-- A path leads to one step of a flow at most. -/
theorem located_unique {visit visit' : Walk.Visit} (h : visit ∈ flow.located path)
    (h' : visit' ∈ flow.located path) {rest rest' : String}
    (he : visit.path ++ rest = visit'.path ++ rest') : visit = visit' := by
  by_contra hne
  have hsymm : Std.Symm fun visit visit' : Walk.Visit => Apart visit.path visit'.path :=
    ⟨fun _ _ hapart => hapart.symm⟩
  exact (located_apart flow path).forall h h' hne rest rest' he

theorem path_of_mem_located {visit : Walk.Visit} (h : visit ∈ flow.located path) :
    ∃ rest, visit.path = path ++ rest := by
  obtain ⟨n, -, hvisit⟩ := List.mem_filterMap.mp h
  obtain ⟨step, -, rfl⟩ := Option.map_eq_some_iff.mp hvisit
  exact ⟨"[" ++ Number.natText n.2 ++ "]", by simp only [Value.itemPath, String.append_assoc]⟩

theorem mem_below {visit : Walk.Visit} {event : Walk.Event} :
    event ∈ Walk.below enters levels visit ↔ enters visit = true ∧ ∃ child ∈ visit.step.nestedFlows,
      event ∈ child.flow.walkWhere enters levels (visit.path ++ child.suffix) := by
  unfold Walk.below
  by_cases henters : enters visit = true
  · simp [henters]
  · simp [henters]

/-- What a walk reports lies below the flow that is walked. -/
theorem path_of_mem_walkWhere {event : Walk.Event} (h : event ∈ flow.walkWhere enters levels path) :
    ∃ rest, event.path = path ++ rest := by
  induction levels generalizing flow path with
  | zero =>
    obtain rfl := List.mem_singleton.mp h
    exact ⟨"", (String.append_empty ..).symm⟩
  | succ levels ih =>
    rw [walkWhere_located] at h
    obtain ⟨visit, hvisit, h⟩ := List.mem_flatMap.mp h
    obtain ⟨rest, hrest⟩ := path_of_mem_located hvisit
    rcases List.mem_cons.mp h with rfl | h
    · exact ⟨rest, hrest⟩
    · obtain ⟨-, child, -, h⟩ := mem_below.mp h
      obtain ⟨more, hmore⟩ := ih h
      exact ⟨rest ++ child.suffix ++ more, by simp only [hmore, hrest, String.append_assoc]⟩

/-- What is reported below a step is longer than the path of the step. -/
theorem path_of_mem_below {visit : Walk.Visit} {event : Walk.Event}
    (h : event ∈ Walk.below enters levels visit) : ∃ rest, rest ≠ "" ∧ event.path = visit.path ++ rest := by
  obtain ⟨-, child, hchild, h⟩ := mem_below.mp h
  obtain ⟨rest, hrest⟩ := path_of_mem_walkWhere h
  refine ⟨child.suffix ++ rest, fun he => Step.suffix_ne_empty hchild ?_, by rw [hrest, String.append_assoc]⟩
  exact (String.append_eq_empty_iff.mp he).1

/-- Locations that start with texts that are apart are different. -/
theorem disjoint_of_apart {a b : String} (h : Apart a b) {events events' : List Walk.Event}
    (hevents : ∀ event ∈ events, ∃ rest, event.path = a ++ rest)
    (hevents' : ∀ event ∈ events', ∃ rest, event.path = b ++ rest) :
    (events.map Walk.Event.path).Disjoint (events'.map Walk.Event.path) := by
  intro location ha hb
  obtain ⟨event, hevent, rfl⟩ := List.mem_map.mp ha
  obtain ⟨event', hevent', heq⟩ := List.mem_map.mp hb
  obtain ⟨rest, hrest⟩ := hevents event hevent
  obtain ⟨rest', hrest'⟩ := hevents' event' hevent'
  exact h rest rest' (by rw [← hrest, ← hrest', heq])

/-- The locations of a walk are pairwise different. -/
theorem nodup_walkWhere (enters : Walk.Visit → Bool) (levels : Nat) (flow : Flow) (path : String) :
    ((flow.walkWhere enters levels path).map Walk.Event.path).Nodup := by
  induction levels generalizing flow path with
  | zero => exact List.nodup_singleton path
  | succ levels ih =>
    have hbelow (visit : Walk.Visit) : ((Walk.below enters levels visit).map Walk.Event.path).Nodup := by
      unfold Walk.below
      split_ifs
      · rw [List.map_flatMap, List.nodup_flatMap]
        refine ⟨fun child _ => ih child.flow _, (Step.nestedFlows_apart visit.step).imp fun hapart => ?_⟩
        exact disjoint_of_apart (hapart.append_left visit.path) (fun _ => path_of_mem_walkWhere)
          fun _ => path_of_mem_walkWhere
      · exact List.nodup_nil
    rw [walkWhere_located, List.map_flatMap, List.nodup_flatMap]
    refine ⟨fun visit _ => ?_, (located_apart flow path).imp fun hapart => ?_⟩
    · rw [List.map_cons, List.nodup_cons]
      refine ⟨fun hmem => ?_, hbelow visit⟩
      obtain ⟨event, hevent, hpath⟩ := List.mem_map.mp hmem
      obtain ⟨rest, hrest, heq⟩ := path_of_mem_below hevent
      exact hrest (String.append_eq_left_iff.mp (heq.symm.trans hpath))
    · refine disjoint_of_apart hapart ?_ ?_
      all_goals
        intro event hevent
        rcases List.mem_cons.mp hevent with rfl | hevent
        · exact ⟨"", (String.append_empty ..).symm⟩
        · obtain ⟨rest, -, hrest⟩ := path_of_mem_below hevent
          exact ⟨rest, hrest⟩

end Flow

namespace Value

variable {document : Value} {enters : Walk.Visit → Bool} {levels : Nat}

/-- The locations in the walk over a document are pairwise different, task by task. -/
theorem nodup_walkTasksWhere : ((document.walkTasksWhere enters levels).map Walk.Event.path).Nodup := by
  rw [walkTasksWhere, List.map_flatMap, List.nodup_flatMap]
  constructor
  · rintro ⟨task, i⟩ -
    dsimp only
    split
    · exact Flow.nodup_walkWhere enters levels _ _
    · exact List.nodup_nil
  · refine (Step.pairwise_zipIdx _).imp fun {n n'} hne => ?_
    refine Flow.disjoint_of_apart (apart_taskFlowPath hne) ?_ ?_
    all_goals
      intro event hevent
      dsimp only at hevent
      split at hevent
      · exact Flow.path_of_mem_walkWhere hevent
      · cases hevent

/-- In the walk over a document no location is used twice, neither for the steps that are visited nor for
the flows that are too deep. So the location of a visit says which step is meant. -/
theorem locations_distinct (document : Value) (enters : Walk.Visit → Bool) (levels : Nat) :
    ((Walk.visits (document.walkTasksWhere enters levels)).map (·.path)).Nodup ∧
      (Walk.limits (document.walkTasksWhere enters levels)).Nodup :=
  ⟨nodup_walkTasksWhere.sublist (Walk.visits_sublist _), nodup_walkTasksWhere.sublist (Walk.limits_sublist _)⟩

end Value

end FlowScript
