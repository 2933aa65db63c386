import FlowScript.Proofs.Assigned
import FlowScript.Proofs.Fields
import FlowScript.Proofs.FreshNames
import Mathlib.Tactic.Tauto

/-!
# Names in scope after a flow

Two passes know which names a flow defines. Compiling it brings them into scope, and the walk collects
the bindings of its steps without compiling anything. For flows without parallel groups, of which no step
is skipped and every name can be written, the scope is exactly what the steps bind and the counters of
the conditional loops. The walk knows all of it except for conditional loops: it takes an index that they
do not have for a binding of theirs, and it does not know a counter that they name.
-/
namespace FlowScript

open Construct

/-! ## Walks that meet no limit -/

namespace Flow

/-- A walk of a flow meets no limit. -/
def Within (levels : Nat) (flow : Flow) : Prop :=
  ∀ path, Walk.Event.limit path ∉ flow.walk (fun _ => true) levels ""

/-- A walk that meets no limit visits all there is to visit. -/
theorem steps_of_no_limit {levels more : Nat} (hle : levels ≤ more) {flow : Flow} {start : String}
    (h : ∀ path, Walk.Event.limit path ∉ flow.walk (fun _ => true) levels start) :
    flow.steps (fun _ => true) more = flow.steps (fun _ => true) levels := by
  induction levels generalizing flow start more with
  | zero => exact absurd List.mem_cons_self (h start)
  | succ levels ih =>
    obtain ⟨more, rfl⟩ : ∃ k, more = k + 1 := ⟨more - 1, by omega⟩
    rw [walk_succ] at h
    rw [steps, steps]
    refine List.flatMap_congr fun entry hentry => ?_
    cases hstep : entry.step? with
    | none => rfl
    | some step =>
      simp only [Option.elim_some, if_true]
      refine congrArg _ (List.flatMap_congr fun child hchild => ?_)
      obtain ⟨i, hi, hget⟩ := List.mem_iff_getElem.mp hentry
      have hbelow : ∀ path, Walk.Event.limit path ∉
          child.flow.walk (fun _ => true) levels (Value.itemPath start i ++ child.suffix) := by
        intro path hpath
        refine h path (List.mem_flatMap.mpr ⟨(entry, i), ?_, ?_⟩)
        · exact List.mem_iff_getElem.mpr ⟨i, by simpa using hi, by simp [hget]⟩
        · simp only [hstep, Option.elim_some, if_true]
          exact List.mem_cons_of_mem _ (List.mem_flatMap.mpr ⟨child, hchild, hpath⟩)
      exact ih (by omega) hbelow

theorem steps_of_within {levels more : Nat} {flow : Flow} (h : flow.Within levels) (h' : flow.Within more) :
    flow.steps (fun _ => true) more = flow.steps (fun _ => true) levels := by
  obtain hle | hle := Nat.le_total levels more
  · exact steps_of_no_limit hle h
  · exact (steps_of_no_limit hle h').symm

end Flow

/-! ## What steps give and assign -/

namespace Step

/-- The conditional loop that a step is. -/
def whileLoop? (step : Step) : Option Loop :=
  match step.kind with
  | .loop => (Loop.read? step).filter fun loop => loop.kind == some "while"
  | _ => none

/-- The values that an author gives as names. -/
def givenValues (step : Step) : List Value :=
  step.boundValues.toOption.getD [] ++ step.controlValues ++ (step.whileLoop?.map (·.counterVar)).toList

/-- Whether every name that is given can be written. -/
def givesNames (step : Step) : Bool := step.givenValues.all fun v => v.isNull || v.identifier?.isSome

/-- The control values that are names in the program. A conditional loop has no index. -/
def assignedControl (step : Step) : List Value :=
  if step.whileLoop?.isSome then [] else step.controlValues

/-- The program binds a name for a step, apart from the counters of conditional loops. -/
def Assigns (step : Step) (name : String) : Prop :=
  ∃ values, step.boundValues = .ok values ∧ name ∈ namesOf (values ++ step.assignedControl)

variable {step : Step} {values : List Value} {n : String}

theorem assigns_iff (hvalues : step.boundValues = .ok values) :
    step.Assigns n ↔ n ∈ namesOf (values ++ step.assignedControl) := by
  constructor
  · rintro ⟨others, hothers, hmem⟩
    obtain rfl := Except.ok.inj (hvalues.symm.trans hothers)
    exact hmem
  · exact fun hmem => ⟨values, hvalues, hmem⟩

theorem given_of_givesNames (h : step.givesNames = true) {v : Value} (hv : v ∈ step.givenValues)
    (hnull : v.isNull = false) : ∃ name, v = .text name ∧ v.identifier? = some name := by
  have hall := List.all_eq_true.mp h v hv
  rw [hnull, Bool.false_or] at hall
  obtain ⟨name, hname⟩ := Option.isSome_iff_exists.mp hall
  exact ⟨name, (Program.Pass.identifier?_eq_some hname).1, hname⟩

end Step

namespace Program

open Pass

/-! ## Counters -/

mutual

/-- The counters that an item starts, at any depth. -/
def Item.started : Item → List String
  | .line (.start counter) => [counter]
  | .line _ => []
  | .comment _ => []
  | .blank => []
  | .block _ body => blockStarted body

def blockStarted : List Item → List String
  | [] => []
  | item :: items => item.started ++ blockStarted items

end

@[simp] theorem blockStarted_nil : blockStarted [] = [] := by rw [blockStarted]

@[simp] theorem blockStarted_cons (item : Item) (items : Block) :
    blockStarted (item :: items) = item.started ++ blockStarted items := by rw [blockStarted]

@[simp] theorem blockStarted_append (a b : Block) : blockStarted (a ++ b) = blockStarted a ++ blockStarted b := by
  induction a with
  | nil => simp
  | cons item items ih => simp [ih]

@[simp] theorem started_filled (block : Block) : blockStarted (filled block) = blockStarted block := by
  cases block <;> simp [filled, Item.started]

theorem started_eq_nil {block : Block} (h : ∀ item ∈ block, item.started = []) : blockStarted block = [] := by
  induction block with
  | nil => simp
  | cons item items ih =>
    rw [blockStarted_cons, h item List.mem_cons_self, ih fun x hx => h x (List.mem_cons_of_mem _ hx)]
    rfl

/-- A counter is the one that the loop names, or one of the numbered ones that was not in scope. -/
def CountedBy (scope : Scope) (loop : Loop) (counter : String) : Prop :=
  loop.counterVar.identifier? = some counter ∨
    loop.counterVar.identifier? = none ∧ counter ∉ scope.names ∧ ∃ k, counter = Scope.candidate counterBase k

theorem countedBy_counterOf (scope : Scope) (loop : Loop) : CountedBy scope loop (counterOf scope loop) := by
  unfold counterOf nameOr CountedBy
  cases hname : loop.counterVar.identifier? with
  | some name => exact .inl rfl
  | none => exact .inr ⟨rfl, scope.freshName_spec counterBase⟩

/-- The counters of the loops that do not name one. -/
def unnamedCounters (loops : List Loop) (counters : List String) : List String :=
  ((loops.zip counters).filter fun p => p.1.counterVar.identifier?.isNone).map (·.2)

theorem mem_counters_iff {scope : Scope} {loops : List Loop} {counters : List String}
    (h : List.Forall₂ (CountedBy scope) loops counters) {n : String} :
    n ∈ counters ↔ (∃ loop ∈ loops, loop.counterVar.identifier? = some n) ∨ n ∈ unnamedCounters loops counters := by
  induction h with
  | nil => simp [unnamedCounters]
  | @cons loop counter loops counters hcounter _ ih =>
    unfold unnamedCounters at ih ⊢
    obtain hname | ⟨hname, -, -⟩ := hcounter
    · simp only [List.mem_cons, List.zip_cons_cons, List.filter_cons, hname, Option.isNone_some,
        Bool.false_eq_true, if_false, exists_eq_or_imp, ih, Option.some.injEq, eq_comm (a := n), or_assoc]
    · simp only [List.mem_cons, List.zip_cons_cons, List.filter_cons, hname, Option.isNone_none, if_true,
        exists_eq_or_imp, ih, reduceCtorEq, false_or, List.map_cons, or_left_comm]

/-! ## What comes into scope -/

/-- The names and the counters of loops that come into scope from one state to the next. -/
structure Pass.State.Gains (names : String → Prop) (loops : List Loop) (counters : List String)
    (s s' : State) : Prop where
  scope : ∀ n, n ∈ s'.scope.names ↔ n ∈ s.scope.names ∨ names n ∨ n ∈ counters
  counted : List.Forall₂ (CountedBy s.scope) loops counters

namespace Pass.State.Gains

variable {s t s' : State} {names more : String → Prop} {loops others : List Loop} {counters rest : List String}

theorem of_scope (h : s'.scope = s.scope) : s.Gains (fun _ => False) [] [] s' :=
  ⟨fun n => by simp [h], .nil⟩

theorem of_binds {bound : List String} (h : s.Binds bound s') : s.Gains (· ∈ bound) [] [] s' :=
  ⟨fun n => by simp [h.scope], .nil⟩

theorem of_counter {loop : Loop} (h : s.Binds [counterOf s.scope loop] s') :
    s.Gains (fun _ => False) [loop] [counterOf s.scope loop] s' :=
  ⟨fun n => by simp [h.scope], .cons (countedBy_counterOf _ _) .nil⟩

theorem congr (h : s.Gains names loops counters s') (hnames : ∀ n, names n ↔ more n) :
    s.Gains more loops counters s' :=
  ⟨fun n => by rw [h.scope, hnames], h.counted⟩

theorem of_eq (h : s.Gains names loops counters s') (hnames : ∀ n, names n ↔ more n) (hloops : loops = others)
    (hcounters : counters = rest) : s.Gains more others rest s' :=
  hloops ▸ hcounters ▸ h.congr hnames

protected theorem trans (h : s.Gains names loops counters t) (h' : t.Gains more others rest s') :
    s.Gains (fun n => names n ∨ more n) (loops ++ others) (counters ++ rest) s' where
  scope n := by
    rw [h'.scope, h.scope, List.mem_append]
    tauto
  counted := by
    refine List.rel_append h.counted (h'.counted.imp fun loop counter hcounter => ?_)
    -- What is fresh later was fresh before: names are never taken out of scope.
    obtain hname | ⟨hname, hfresh, hcandidate⟩ := hcounter
    · exact .inl hname
    · exact .inr ⟨hname, fun hmem => hfresh ((h.scope counter).mpr (.inl hmem)), hcandidate⟩

end Pass.State.Gains

/-! ## Steps -/

section Steps

variable {ctx : Context} {step : Step} {nested : Flow → Pass Block} {s s' : State} {b : Block} {n : String}

/-- A name that can be written is the only one of its value. -/
theorem mem_namesOf_singleton {v : Value} (h : v.identifier?.isSome = true) (fallback : String) :
    n ∈ namesOf [v] ↔ n = nameOr v fallback := by
  obtain ⟨name, hname⟩ := Option.isSome_iff_exists.mp h
  obtain ⟨rfl, hid⟩ := identifier?_eq_some hname
  rw [mem_namesOf, nameOr, hname, Option.getD_some, List.mem_singleton, Value.text.injEq]
  constructor
  · exact And.left
  · rintro rfl
    exact ⟨rfl, ne_empty_of_isIdentifier hid⟩

theorem namesOf_append (vs ws : List Value) : namesOf (vs ++ ws) = namesOf vs ++ namesOf ws :=
  List.filterMap_append

/-- The values that a compiled step binds can be read. -/
theorem StepRun.exists_boundValues (h : StepRun nested ctx step s b s') (hc : step.isSkipped = false) :
    ∃ values, step.boundValues = .ok values := by
  unfold Step.boundValues
  cases hk : step.kind with
  | transform =>
    cases h with
    | skipped hs _ => rw [hs] at hc; cases hc
    | transform _ hr => exact ⟨_, by simp only [hr]; rfl⟩
    | _ => simp_all
  | call =>
    cases h with
    | skipped hs _ => rw [hs] at hc; cases hc
    | call _ hr => exact ⟨_, by simp only [hr]; rfl⟩
    | _ => simp_all
  | _ => exact ⟨_, rfl⟩

/-- A step of another kind than a loop or a guarded block assigns to the names of its values. -/
theorem assigns_iff_of_leaf (hk : step.kind ≠ .loop) (hg : step.kind ≠ .guarded) {values : List Value}
    (hvalues : step.boundValues = .ok values) : step.Assigns n ↔ n ∈ namesOf values := by
  have hcontrol : step.assignedControl = [] := by
    unfold Step.assignedControl Step.controlValues
    split_ifs
    · rfl
    · split <;> first | contradiction | rfl
  rw [Step.assigns_iff hvalues, hcontrol, List.append_nil]

/-- A result under a single name. -/
theorem gains_result {v : Value} (fallback : String) (hk : step.kind ≠ .loop) (hg : step.kind ≠ .guarded)
    (hnames : step.givesNames = true) (hvalues : step.boundValues = .ok [v]) (hnull : v.isNull = false)
    (hb : s.Binds [nameOr v fallback] s') : s.Gains step.Assigns [] [] s' := by
  have hgiven : v ∈ step.givenValues := by simp [Step.givenValues, hvalues, Except.toOption]
  obtain ⟨name, -, hname⟩ := Step.given_of_givesNames hnames hgiven hnull
  refine (State.Gains.of_binds hb).congr fun n => ?_
  rw [assigns_iff_of_leaf hk hg hvalues, mem_namesOf_singleton (Option.isSome_of_eq_some hname) fallback,
    List.mem_singleton]

theorem isNull_output {transform : Transform} (h : Transform.read? step = .ok (some transform)) :
    transform.output.isNull = false := by
  obtain ⟨-, hnone⟩ | ⟨es, t, -, ht, hsome⟩ := read_eq_ok h
  · cases hnone
  · obtain rfl := Option.some.inj hsome
    obtain ⟨flat, -, ht⟩ := bind_eq_ok.mp ht
    obtain rfl := Except.ok.inj ht
    exact Fields.isNull_firstOf?_getD es _ _

theorem isNull_resultName {call : Call} (h : Call.read? step = .ok (some call)) :
    call.resultName.isNull = false := by
  obtain ⟨-, hnone⟩ | ⟨es, c, -, hc, hsome⟩ := read_eq_ok h
  · cases hnone
  · obtain rfl := Option.some.inj hsome
    obtain ⟨method, -, hc⟩ := bind_eq_ok.mp hc
    obtain rfl := Except.ok.inj hc
    exact Fields.isNull_firstOf?_getD es _ _

theorem isNull_itemVar {loop : Loop} (h : Loop.read? step = some loop) : loop.itemVar.isNull = false := by
  obtain ⟨es, -, rfl⟩ := Option.map_eq_some_iff.mp h
  exact Fields.isNull_firstOf?_getD es _ _

theorem isNull_errorName (step : Step) : (Guard.read step).errorName.isNull = false := by
  simp only [Guard.read, Guard.errorNameOf]
  cases step.guardBlocks.handler.fields? with
  | none => rfl
  | some es => exact Fields.isNull_firstOf?_getD es _ _

/-- What a loop or a guarded block assigns to by itself. -/
theorem assigns_iff_of_control (hk : step.kind = .loop ∨ step.kind = .guarded) :
    step.Assigns n ↔ n ∈ namesOf step.assignedControl := by
  have hvalues : step.boundValues = .ok [] := by
    unfold Step.boundValues
    rcases hk with hk | hk <;> rw [hk]
  rw [Step.assigns_iff hvalues, List.nil_append]

theorem assignedControl_of_loop {loop : Loop} (hk : step.kind = .loop) (hr : Loop.read? step = some loop)
    (hl : loop.kind ≠ some "while") : step.assignedControl = Step.loopControl loop ∧ step.whileLoop? = none := by
  have hwhile : step.whileLoop? = none := by simp [Step.whileLoop?, hk, hr, Option.filter, hl]
  exact ⟨by simp [Step.assignedControl, hwhile, Step.controlValues, hk, hr], hwhile⟩

theorem identifier?_of_control (hnames : step.givesNames = true) {v : Value} (hv : v ∈ step.controlValues)
    (hnull : v.isNull = false) : v.identifier?.isSome = true := by
  have hgiven : v ∈ step.givenValues := by simp [Step.givenValues, hv]
  obtain ⟨name, -, hname⟩ := Step.given_of_givesNames hnames hgiven hnull
  exact Option.isSome_of_eq_some hname

theorem whileLoop?_of_kind (hk : step.kind ≠ .loop) : step.whileLoop? = none := by
  unfold Step.whileLoop?
  split
  · contradiction
  · rfl

/-- An index that is not given is no name, and one that is given is its own. -/
theorem mem_namesOf_index {v : Value} (h : v.isNull = false → v.identifier?.isSome = true) (fallback : String) :
    n ∈ namesOf [v] ↔ v.isNull = false ∧ n = nameOr v fallback := by
  cases hnull : v.isNull with
  | true =>
    obtain rfl := Value.eq_null_of_isNull hnull
    simp [namesOf, Value.text?]
  | false => simp only [mem_namesOf_singleton (h hnull) fallback, true_and]

theorem bindingsBlock_started {bindings : Fields} (h : (bindingsBlock ctx bindings).Runs s b s') :
    blockStarted b = [] := by
  refine started_eq_nil fun item hitem => ?_
  obtain ⟨entry, -, t, body, t', hrun, hmem⟩ := mem_each h hitem
  obtain ⟨name, code, -, rfl, -⟩ | ⟨text, -, rfl, -⟩ := bindingBlock_spec hrun
  all_goals
    obtain rfl := List.mem_singleton.mp hmem
    rfl

theorem importBlock_started {imported : Import} {path : String} (h : (importBlock ctx imported path).Runs s b s') :
    blockStarted b = [] := by
  obtain ⟨name, code, -, rfl, -⟩ | ⟨-, -, ⟨-, rest, rfl⟩ | ⟨-, _, -, rfl⟩⟩ := importBlock_spec h
  all_goals simp [Item.started]

/-- The variables of a step come into scope. -/
theorem gains_assignments {bindings : Fields} (hk : step.kind = .variables) (hnames : step.givesNames = true)
    (hb : (step.get "variables").fields? = some bindings) (run : (bindingsBlock ctx bindings).Runs s b s') :
    s.Gains step.Assigns [] [] s' := by
  have hvalues : step.boundValues = .ok (bindings.map (·.1)) := by
    simp only [Step.boundValues, hk, hb, Option.getD_some]
  refine (State.Gains.of_binds (bindingsBlock_binds run)).congr fun n => ?_
  rw [assigns_iff_of_leaf (by simp [hk]) (by simp [hk]) hvalues, mem_namesOf, List.mem_filterMap]
  constructor
  · rintro ⟨entry, hentry, hname⟩
    obtain ⟨htext, hid⟩ := identifier?_eq_some hname
    exact ⟨List.mem_map.mpr ⟨entry, hentry, htext⟩, ne_empty_of_isIdentifier hid⟩
  · rintro ⟨htext, -⟩
    obtain ⟨entry, hentry, hkey⟩ := List.mem_map.mp htext
    have hgiven : Value.text n ∈ step.givenValues := by
      simp only [Step.givenValues, hvalues, Except.toOption, Option.getD_some, List.mem_append]
      exact .inl (.inl htext)
    obtain ⟨name, htext', hname⟩ := Step.given_of_givesNames hnames hgiven rfl
    obtain rfl := Value.text.inj htext'
    exact ⟨entry, hentry, by rw [hkey, hname]⟩

/-- The name of an import comes into scope, if it has one. -/
theorem gains_import {path : String} (hk : step.kind = .importing) (hnames : step.givesNames = true)
    (run : (importBlock ctx (Import.ofStep step) path).Runs s b s') : s.Gains step.Assigns [] [] s' := by
  have hvalues : step.boundValues = .ok (Step.optionText (Import.ofStep step).boundName) := by
    simp only [Step.boundValues, hk]
  have hbinds := importBlock_binds run
  cases hname : (Import.ofStep step).boundName with
  | none =>
    rw [hname] at hvalues hbinds
    refine (State.Gains.of_binds hbinds).congr fun n => ?_
    rw [assigns_iff_of_leaf (by simp [hk]) (by simp [hk]) hvalues]
    rfl
  | some given =>
    rw [hname] at hvalues hbinds
    have hgiven : Value.text given ∈ step.givenValues := by
      simp [Step.givenValues, hvalues, Except.toOption, Step.optionText]
    obtain ⟨name, htext, hid⟩ := Step.given_of_givesNames hnames hgiven rfl
    obtain rfl := Value.text.inj htext
    have hbound : boundAs (some given) = some given := by
      simp [boundAs, Option.filter, (identifier?_eq_some hid).2]
    rw [hbound] at hbinds
    refine gains_result "" (by simp [hk]) (by simp [hk]) hnames hvalues rfl ?_
    rwa [nameOr, hid, Option.getD_some]

/-- Nothing comes into scope by a step that has no values and no control names. -/
theorem gains_nothing (hk : step.kind ≠ .loop) (hg : step.kind ≠ .guarded) (hvalues : step.boundValues = .ok [])
    (hb : s.Binds [] s') : s.Gains step.Assigns [] [] s' :=
  (State.Gains.of_binds hb).congr fun n => by rw [assigns_iff_of_leaf hk hg hvalues]; rfl

/-- The names of a loop over a collection, with or without an index. -/
theorem assigns_iff_of_for {loop : Loop} (hk : step.kind = .loop) (hr : Loop.read? step = some loop)
    (hl : loop.kind = some "for") (hnames : step.givesNames = true) :
    step.Assigns n ↔ n = nameOr loop.itemVar "item" ∨ loop.indexVar.isNull = false ∧ n = nameOr loop.indexVar "index" := by
  obtain ⟨hcontrol, -⟩ := assignedControl_of_loop hk hr (by simp [hl])
  have hvalues : step.controlValues = [loop.itemVar, loop.indexVar] := by
    simp [Step.controlValues, hk, hr, Step.loopControl, hl]
  have hitem := identifier?_of_control hnames (v := loop.itemVar) (by simp [hvalues]) (isNull_itemVar hr)
  have hindex := identifier?_of_control hnames (v := loop.indexVar) (by simp [hvalues])
  rw [assigns_iff_of_control (.inl hk), hcontrol]
  have hlist : Step.loopControl loop = [loop.itemVar] ++ [loop.indexVar] := by simp [Step.loopControl, hl]
  rw [hlist, namesOf_append, List.mem_append, mem_namesOf_singleton hitem "item", mem_namesOf_index hindex "index"]

/-- The index of a loop of a number of rounds, which has a name of its own if none is given. -/
theorem assigns_iff_of_repeat {loop : Loop} (hk : step.kind = .loop) (hr : Loop.read? step = some loop)
    (hl : loop.kind = some "repeat") (hnames : step.givesNames = true) :
    step.Assigns n ↔ n = nameOr loop.indexVar "i" := by
  obtain ⟨hcontrol, -⟩ := assignedControl_of_loop hk hr (by simp [hl])
  have hmem : loop.indexVar ∈ step.controlValues := by simp [Step.controlValues, hk, hr, Step.loopControl]
  have hindex := identifier?_of_control hnames hmem
  rw [assigns_iff_of_control (.inl hk), hcontrol]
  cases hnull : loop.indexVar.isNull with
  | true =>
    have hlist : Step.loopControl loop = [loop.indexVar] ++ [.text "i"] := by simp [Step.loopControl, hl, hnull]
    have hfallback : nameOr loop.indexVar "i" = "i" := by
      rw [Value.eq_null_of_isNull hnull]
      rfl
    rw [hlist, namesOf_append, List.mem_append, mem_namesOf_index hindex "i", hfallback,
      mem_namesOf_singleton (v := .text "i") rfl "i"]
    simp [hnull, nameOr, Value.identifier?, show isIdentifier "i" = true by decide]
  | false =>
    have hlist : Step.loopControl loop = [loop.indexVar] := by simp [Step.loopControl, hl, hnull]
    rw [hlist, mem_namesOf_singleton (hindex hnull) "i"]

/-- A conditional loop assigns to its counter alone. -/
theorem not_assigns_of_while {loop : Loop} (hk : step.kind = .loop) (hw : step.whileLoop? = some loop) :
    ¬ step.Assigns n := by
  have hcontrol : step.assignedControl = [] := by simp [Step.assignedControl, hw]
  rw [assigns_iff_of_control (.inl hk), hcontrol]
  simp [namesOf]

theorem assigns_iff_of_guard (hk : step.kind = .guarded) (hnames : step.givesNames = true) :
    step.Assigns n ↔ (Guard.read step).handler.isSome = true ∧ n = nameOr (Guard.read step).errorName "e" := by
  have hwhile : step.whileLoop? = none := whileLoop?_of_kind (by simp [hk])
  have hvalues : step.controlValues =
      if (Guard.read step).handler.isSome then [(Guard.read step).errorName] else [] := by
    simp only [Step.controlValues, hk]
  have hcontrol : step.assignedControl = step.controlValues := by simp [Step.assignedControl, hwhile]
  rw [assigns_iff_of_control (.inr hk), hcontrol, hvalues]
  by_cases hhandler : (Guard.read step).handler.isSome = true
  · have herror := identifier?_of_control hnames (v := (Guard.read step).errorName)
      (by simp [hvalues, hhandler]) (isNull_errorName step)
    rw [if_pos hhandler, mem_namesOf_singleton herror "e"]
    exact ⟨fun h => ⟨hhandler, h⟩, And.right⟩
  · rw [if_neg hhandler]
    simp [namesOf, hhandler]

/-- What the handler and the cleanup of a guarded block bring into scope. -/
theorem handler_gains {guard : Guard} {handler cleanup : Block} {t : State} {names : Flow → String → Prop}
    {loops : Flow → List Loop}
    (hnested : ∀ flow ∈ guard.handler.toList ++ guard.cleanup.toList, ∀ {s b s'}, (nested flow).Runs s b s' →
      s.Gains (names flow) (loops flow) (blockStarted b) s')
    (hh : HandlerRun nested guard s handler t) (hf : CleanupRun nested guard t cleanup s') :
    s.Gains (fun n => guard.handler.isSome = true ∧ n = nameOr guard.errorName "e" ∨
        ∃ flow ∈ guard.handler.toList ++ guard.cleanup.toList, names flow n)
      ((guard.handler.toList ++ guard.cleanup.toList).flatMap loops) (blockStarted (handler ++ cleanup)) s' := by
  have hcleanup : t.Gains (fun n => ∃ flow ∈ guard.cleanup.toList, names flow n)
      (guard.cleanup.toList.flatMap loops) (blockStarted cleanup) s' := by
    cases hf with
    | @cleaned flow body _ _ hf hn =>
      exact (hnested flow (by simp [hf]) hn).of_eq (by simp [hf]) (by simp [hf]) (by simp [Item.started])
    | absent hf => exact (State.Gains.of_scope rfl).of_eq (by simp [hf]) (by simp [hf]) (by simp)
  have hhandler : s.Gains (fun n => guard.handler.isSome = true ∧ n = nameOr guard.errorName "e" ∨
      ∃ flow ∈ guard.handler.toList, names flow n) (guard.handler.toList.flatMap loops) (blockStarted handler) t := by
    cases hh with
    | @handled flow body _ _ _ hf hb hn =>
      refine ((State.Gains.of_binds hb).trans (hnested flow (by simp [hf]) hn)).of_eq ?_ ?_ ?_
      · simp [hf]
      · simp [hf]
      · simp [Item.started]
    | absent hnone hc => exact (State.Gains.of_scope rfl).of_eq (by simp [hnone]) (by simp [hnone]) (by simp)
    | ignored hnone hc hb =>
      exact (State.Gains.of_binds hb).of_eq (by simp [hnone]) (by simp [hnone]) (by simp [Item.started])
  refine (hhandler.trans hcleanup).of_eq (fun n => ?_) ?_ ?_
  · simp only [List.mem_append, or_and_right, exists_or, or_assoc]
  · rw [List.flatMap_append]
  · rw [blockStarted_append]

/-- What compiling a step brings into scope: what it assigns to by itself, and what the flows it owns
bring, in their order. -/
theorem StepRun.gains {names : Flow → String → Prop} {loops : Flow → List Loop}
    (hnil : (∀ n, ¬ names [] n) ∧ loops [] = []) (hc : step.isSkipped = false)
    (hparallel : step.kind ≠ .parallel) (hnames : step.givesNames = true)
    (hnested : ∀ flow ∈ constructFlows step, ∀ {s b s'}, (nested flow).Runs s b s' →
      s.Gains (names flow) (loops flow) (blockStarted b) s')
    (h : StepRun nested ctx step s b s') :
    s.Gains (fun n => step.Assigns n ∨ ∃ flow ∈ constructFlows step, names flow n)
      (step.whileLoop?.toList ++ (constructFlows step).flatMap loops) (blockStarted b) s' := by
  -- A step without flows gains only what it assigns to.
  have leaf {t : State} (hflows : constructFlows step = []) (hstarted : blockStarted b = [])
      (hk : step.kind ≠ .loop) (h : s.Gains step.Assigns [] [] t) :
      s.Gains (fun n => step.Assigns n ∨ ∃ flow ∈ constructFlows step, names flow n)
        (step.whileLoop?.toList ++ (constructFlows step).flatMap loops) (blockStarted b) t := by
    rw [hflows, hstarted, whileLoop?_of_kind hk]
    exact h.congr fun n => by simp
  -- A loop gains what its head brings and then what its body brings.
  have looping {flow : Flow} (counters : List String) {body : Block} {t t' : State}
      (hflows : constructFlows step = [flow]) (hstarted : blockStarted b = counters ++ blockStarted body)
      (h : s.Gains step.Assigns step.whileLoop?.toList counters t) (hn : (nested flow).Runs t body t') :
      s.Gains (fun n => step.Assigns n ∨ ∃ flow ∈ constructFlows step, names flow n)
        (step.whileLoop?.toList ++ (constructFlows step).flatMap loops) (blockStarted b) t' := by
    have hflow := hnested flow (by simp [hflows]) hn
    rw [hflows, hstarted, List.flatMap_singleton]
    exact (h.trans hflow).congr fun n => by simp
  have conditional {t : State} (hk : step.kind = .logic) (hb : s.Binds [] t) : s.Gains step.Assigns [] [] t :=
    gains_nothing (by simp [hk]) (by simp [hk]) (by simp only [Step.boundValues, hk]) hb
  cases h with
  | skipped hs _ => rw [hs] at hc; cases hc
  | assignments hk _ hb run =>
    exact leaf (by simp [constructFlows, hk]) (bindingsBlock_started run) (by simp [hk])
      (gains_assignments hk hnames hb run)
  | importing hk _ hp run =>
    exact leaf (by simp [constructFlows, hk]) (importBlock_started run) (by simp [hk])
      (gains_import hk hnames run)
  | @transform t texts code codes _ _ hk hr _ hb =>
    have hvalues : step.boundValues = .ok [t.output] := by
      simp only [Step.boundValues, hk, hr]
      rfl
    refine leaf (by simp [constructFlows, hk]) ?_ (by simp [hk])
      (gains_result _ (by simp [hk]) (by simp [hk]) hnames hvalues (isNull_output hr) hb)
    refine started_eq_nil fun item hitem => ?_
    obtain htext | hcode := List.mem_append.mp hitem
    · obtain ⟨text, -, rfl⟩ := List.mem_map.mp htext
      rfl
    · obtain ⟨c, -, rfl⟩ := List.mem_map.mp hcode
      rfl
  | @call c code _ _ hk hr _ hb =>
    have hvalues : step.boundValues = .ok [c.resultName] := by
      simp only [Step.boundValues, hk, hr]
      rfl
    exact leaf (by simp [constructFlows, hk]) (by simp [Item.started]) (by simp [hk])
      (gains_result _ (by simp [hk]) (by simp [hk]) hnames hvalues (isNull_resultName hr) hb)
  | use hk _ hb =>
    exact leaf (by simp [constructFlows, hk]) (by simp [Item.started]) (by simp [hk])
      (gains_nothing (by simp [hk]) (by simp [hk]) (by simp only [Step.boundValues, hk]) hb)
  | @query action given code _ _ hk hr _ hg hb =>
    have hvalues : step.boundValues = .ok [.text given] := by
      simp only [Step.boundValues, hk, hr, Option.bind_some, hg, Step.optionText, Option.toList_some,
        List.map_cons, List.map_nil]
    exact leaf (by simp [constructFlows, hk]) (by simp [Item.started]) (by simp [hk])
      (gains_result _ (by simp [hk]) (by simp [hk]) hnames hvalues rfl hb)
  | perform hk hr _ hg hb =>
    have hvalues : step.boundValues = .ok [] := by
      simp only [Step.boundValues, hk, hr, Option.bind_some, hg]
      rfl
    exact leaf (by simp [constructFlows, hk]) (by simp [Item.started]) (by simp [hk])
      (gains_nothing (by simp [hk]) (by simp [hk]) hvalues hb)
  | conditional hk _ he hb hn =>
    have helse : ((step.get "logic").field "else").items = [] := by
      cases hv : (step.get "logic").field "else" <;> simp_all [Value.isNull, Value.items, Value.items?]
    have hflows : constructFlows step = [((step.get "logic").field "then").items, []] := by
      simp only [constructFlows, hk, helse]
    have hthen := hnested _ (by rw [hflows]; exact List.mem_cons_self) hn
    refine ((conditional hk hb).trans hthen).of_eq (fun n => ?_) ?_ ?_
    · simp [hflows, hnil.1]
    · simp [hflows, hnil.2, whileLoop?_of_kind, hk]
    · simp [Item.started]
  | alternative hk _ he hb hy hn =>
    have hflows : constructFlows step =
        [((step.get "logic").field "then").items, ((step.get "logic").field "else").items] := by
      simp only [constructFlows, hk]
    have hthen := hnested _ (by rw [hflows]; exact List.mem_cons_self) hy
    have helse := hnested _ (by rw [hflows]; simp) hn
    refine (((conditional hk hb).trans hthen).trans helse).of_eq (fun n => ?_) ?_ ?_
    · simp [hflows, or_assoc]
    · simp [hflows, whileLoop?_of_kind, hk]
    · simp [Item.started]
  | forEach hk hr _ hl hi hb hn =>
    have hwhile := (assignedControl_of_loop hk hr (by simp [hl])).2
    refine looping [] (by simp [constructFlows, hk, hr]) (by simp [Item.started]) ?_ hn
    rw [hwhile]
    exact (State.Gains.of_binds hb).congr fun n => by simp [assigns_iff_of_for hk hr hl hnames, hi]
  | forIndexed hk hr _ hl hi hb hn =>
    have hwhile := (assignedControl_of_loop hk hr (by simp [hl])).2
    refine looping [] (by simp [constructFlows, hk, hr]) (by simp [Item.started]) ?_ hn
    rw [hwhile]
    exact (State.Gains.of_binds hb).congr fun n => by simp [assigns_iff_of_for hk hr hl hnames, hi]
  | @bounded loop _ _ _ _ _ _ hk hr _ hl hb hn =>
    have hwhile : step.whileLoop? = some loop := by simp [Step.whileLoop?, hk, hr, Option.filter, hl]
    refine looping [counterOf s.scope loop] (by simp [constructFlows, hk, hr]) (by simp [Item.started]) ?_ hn
    rw [hwhile]
    exact (State.Gains.of_counter hb).congr fun n => by simp [not_assigns_of_while hk hwhile]
  | counted hk hr _ hl hb hn =>
    have hwhile := (assignedControl_of_loop hk hr (by simp [hl])).2
    refine looping [] (by simp [constructFlows, hk, hr]) (by simp [Item.started]) ?_ hn
    rw [hwhile]
    exact (State.Gains.of_binds hb).congr fun n => by simp [assigns_iff_of_repeat hk hr hl hnames]
  | guarded hk _ hb hn hh hf =>
    have hflows : constructFlows step = (Guard.read step).body.getD [] ::
        ((Guard.read step).handler.toList ++ (Guard.read step).cleanup.toList) := by
      simp only [constructFlows, hk]
    have hbody := hnested _ (by rw [hflows]; exact List.mem_cons_self) hn
    have hrest := handler_gains (fun flow hflow {_ _ _} hrun =>
      hnested flow (by rw [hflows]; exact List.mem_cons_of_mem _ hflow) hrun) hh hf
    refine (((State.Gains.of_binds hb).trans hbody).trans hrest).of_eq (fun n => ?_) ?_ ?_
    · rw [hflows]
      simp only [assigns_iff_of_guard hk hnames, List.mem_cons, exists_eq_or_imp, List.not_mem_nil, false_or]
      exact or_left_comm
    · simp [hflows, whileLoop?_of_kind, hk]
    · simp [Item.started]
  | emptyGroup hk => exact absurd hk hparallel
  | group hk => exact absurd hk hparallel

/-- What compiling a flow brings into scope: what the steps that the walk visits assign to, and the
counters that the block starts, one for each conditional loop, in order. -/
theorem flowBlock_gains {levels : Nat} {flow : Flow}
    (hsteps : ∀ step ∈ flow.steps (fun _ => true) levels,
      step.isSkipped = false ∧ step.kind ≠ .parallel ∧ step.givesNames = true)
    (h : (flowBlock ctx levels flow).Runs s b s') :
    s.Gains (fun n => ∃ step ∈ flow.steps (fun _ => true) levels, step.Assigns n)
      ((flow.steps (fun _ => true) levels).filterMap Step.whileLoop?) (blockStarted b) s' := by
  induction levels generalizing flow s b s' with
  | zero =>
    obtain ⟨⟨text, rfl⟩, hb⟩ := flowBlock_zero_run h
    exact (State.Gains.of_binds hb).of_eq (by simp [Flow.steps]) rfl (by simp [Item.started])
  | succ levels ih =>
    have hnil : Flow.steps (fun _ => true) levels [] = [] := by cases levels <;> rfl
    change (each (entryOfFlow ctx (flowBlock ctx levels)) flow).Runs s b s' at h
    induction flow generalizing s b with
    | nil =>
      obtain ⟨rfl, rfl⟩ := runs_each_nil.mp h
      exact (State.Gains.of_scope rfl).of_eq (by simp [Flow.steps]) rfl (by simp)
    | cons entry rest ihrest =>
      obtain ⟨first, t, others, hentry, hrest, rfl⟩ := runs_each_cons.mp h
      rw [Flow.steps_cons] at hsteps ⊢
      have hafter := ihrest (fun step hstep => hsteps step (List.mem_append_right _ hstep)) hrest
      obtain ⟨step, hstep, hrun⟩ | ⟨hstep, ⟨text, rfl⟩, hskips⟩ := entry_run hentry
      · simp only [hstep, Option.elim_some, if_true] at hsteps ⊢
        obtain ⟨hc, hparallel, hgives⟩ := hsteps step (List.mem_append_left _ List.mem_cons_self)
        rw [nestedFlows_flatMap _ hnil hc] at hsteps ⊢
        -- The flows of the step are compiled as the walk of the remaining levels goes through them.
        have hflows : ∀ below ∈ constructFlows step, ∀ {s b s'}, (flowBlock ctx levels below).Runs s b s' →
            s.Gains (fun n => ∃ x ∈ below.steps (fun _ => true) levels, x.Assigns n)
              ((below.steps (fun _ => true) levels).filterMap Step.whileLoop?) (blockStarted b) s' :=
          fun below hmem {_ _ _} hrun => ih (fun x hx => hsteps x (List.mem_append_left _
            (List.mem_cons_of_mem _ (List.mem_flatMap.mpr ⟨below, hmem, hx⟩)))) hrun
        have hbelow := hrun.gains (by simp [hnil]) hc hparallel hgives hflows
        have hhere : s.Gains _ _ _ t := ⟨hbelow.scope, hbelow.counted⟩
        refine (hhere.trans hafter).of_eq (fun n => ?_) ?_ ?_
        · simp only [List.mem_append, List.mem_cons, List.mem_flatMap, or_and_right, exists_or, exists_eq_left]
          refine or_congr_left (or_congr_right ?_)
          constructor
          · rintro ⟨below, hmem, x, hx, hassigns⟩
            exact ⟨x, ⟨below, hmem, hx⟩, hassigns⟩
          · rintro ⟨x, ⟨below, hmem, hx⟩, hassigns⟩
            exact ⟨below, hmem, x, hx, hassigns⟩
        · rw [List.filterMap_append, List.filterMap_cons, List.filterMap_flatMap]
          cases step.whileLoop? <;> rfl
        · rw [blockStarted_append]
      · simp only [hstep, Option.elim_none, List.nil_append]
        exact ((State.Gains.of_scope hskips.scope).trans hafter).of_eq (by simp) rfl (by simp [Item.started])

end Steps

/-! ## Flows -/

section Flows

variable {flow : Flow} {levels : Nat}

theorem exists_boundNames (control : Bool) (h : ∀ step ∈ flow.steps (fun _ => true) levels,
    ∃ values, step.boundValues = .ok values) : ∃ names, flow.boundNames control levels = .ok names := by
  have hall (visits : List Walk.Visit) (hvisits : ∀ visit ∈ visits, ∃ values, visit.step.boundValues = .ok values) :
      ∃ found, visits.mapM (fun visit => visit.step.bindings control) = .ok found := by
    induction visits with
    | nil => exact ⟨[], rfl⟩
    | cons visit rest ih =>
      obtain ⟨values, hvalues⟩ := hvisits visit List.mem_cons_self
      obtain ⟨found, hfound⟩ := ih fun x hx => hvisits x (List.mem_cons_of_mem _ hx)
      refine ⟨namesOf (values ++ if control then visit.step.controlValues else []) :: found, ?_⟩
      rw [List.mapM_cons, Step.bindings, hvalues, hfound]
      rfl
  obtain ⟨found, hfound⟩ := hall (Walk.visits (flow.walk (fun _ => true) levels "")) fun visit hvisit => by
    refine h visit.step ?_
    rw [← Flow.visits_walk _ _ _ ""]
    exact List.mem_map_of_mem hvisit
  exact ⟨distinctFrom [] found.flatten, by rw [Flow.boundNames, hfound]; rfl⟩

/-- The names that the walk finds are those of the values and the control values of the steps it visits. -/
theorem mem_boundNames_iff {names : List String} (h : flow.boundNames true levels = .ok names) {n : String} :
    n ∈ names ↔ ∃ step ∈ flow.steps (fun _ => true) levels, ∃ values, step.boundValues = .ok values ∧
      n ∈ namesOf (values ++ step.controlValues) := by
  obtain ⟨found, hfound, h⟩ := bind_eq_ok.mp h
  obtain rfl := Except.ok.inj h
  have hbindings {step : Step} {part : List String} (hpart : step.bindings true = .ok part) :
      ∃ values, step.boundValues = .ok values ∧ part = namesOf (values ++ step.controlValues) := by
    obtain ⟨values, hvalues, hpart⟩ := bind_eq_ok.mp hpart
    exact ⟨values, hvalues, (Except.ok.inj hpart).symm⟩
  rw [mem_distinctFrom, ← Flow.visits_walk _ _ _ ""]
  constructor
  · rintro ⟨hmem, -⟩
    obtain ⟨part, hpart, hn⟩ := List.mem_flatten.mp hmem
    obtain ⟨visit, hvisit, hown⟩ := exists_of_result_mem hfound hpart
    obtain ⟨values, hvalues, rfl⟩ := hbindings hown
    exact ⟨visit.step, List.mem_map_of_mem hvisit, values, hvalues, hn⟩
  · rintro ⟨step, hstep, values, hvalues, hn⟩
    obtain ⟨visit, hvisit, rfl⟩ := List.mem_map.mp hstep
    obtain ⟨part, hpart, hown⟩ := exists_result_of_mem hfound hvisit
    obtain ⟨others, hothers, rfl⟩ := hbindings hown
    obtain rfl := Except.ok.inj (hvalues.symm.trans hothers)
    exact ⟨List.mem_flatten.mpr ⟨_, hpart, hn⟩, List.not_mem_nil⟩

/-- The walk takes for a binding what the program assigns to, and the indices of conditional loops. -/
theorem bound_iff_assigns_or_index {step : Step} {n : String} (hgives : step.givesNames = true) :
    (∃ values, step.boundValues = .ok values ∧ n ∈ namesOf (values ++ step.controlValues)) ↔
      step.Assigns n ∨ ∃ loop, step.whileLoop? = some loop ∧ loop.indexVar.identifier? = some n := by
  cases hwhile : step.whileLoop? with
  | none => simp [Step.Assigns, Step.assignedControl, hwhile]
  | some loop =>
    have hloop : step.kind = .loop ∧ Loop.read? step = some loop ∧ loop.kind = some "while" := by
      unfold Step.whileLoop? at hwhile
      split at hwhile
      case h_1 hk =>
        obtain ⟨hread, hkind⟩ := Option.filter_eq_some_iff.mp hwhile
        exact ⟨hk, hread, by simpa using hkind⟩
      case h_2 => cases hwhile
    obtain ⟨hk, hread, hkind⟩ := hloop
    have hvalues : step.boundValues = .ok [] := by simp only [Step.boundValues, hk]
    have hcontrol : step.controlValues = [loop.indexVar] := by
      simp [Step.controlValues, hk, hread, Step.loopControl, hkind]
    have hindex := identifier?_of_control hgives (v := loop.indexVar) (by simp [hcontrol])
    have hnot : ¬ step.Assigns n := not_assigns_of_while hk hwhile
    simp only [hvalues, Except.ok.injEq, exists_eq_left', List.nil_append, hcontrol, hnot, false_or,
      Option.some.injEq]
    rw [mem_namesOf_index hindex ""]
    constructor
    · rintro ⟨hnull, rfl⟩
      obtain ⟨name, hname⟩ := Option.isSome_iff_exists.mp (hindex hnull)
      rw [nameOr, hname, Option.getD_some]
    · intro hname
      refine ⟨?_, by rw [nameOr, hname, Option.getD_some]⟩
      rw [(identifier?_eq_some hname).1]
      rfl

end Flows

/-- The names in scope after a flow without parallel groups, of which nothing is skipped and every name
can be written, are those before it, those its steps assign to, and one counter for each conditional loop.
They are those before it, those that the walk finds and the counters that have no name of their own if
and only if the conditional loops add nothing to the walk: each of their indices is in scope anyway, and
each counter that they name is found elsewhere. So it is if they give neither an index nor a counter. -/
theorem scope_iff_boundNames {ctx : Context} {level : Int} {levels walked : Nat} {flow : Flow} {s s' : State}
    {b : Block} (hlevels : levelsFrom ctx.settings level = .ok levels) (h : (flowAt ctx level flow).Runs s b s')
    (hskipped : s'.skipped = s.skipped)
    (hsteps : ∀ step ∈ flow.steps (fun _ => true) levels, step.kind ≠ .parallel ∧ step.givesNames = true)
    (hwalked : walked = levels ∨ flow.Within levels ∧ flow.Within walked) :
    ∃ names loops counters, flow.boundNames true walked = .ok names ∧
      loops = (flow.steps (fun _ => true) levels).filterMap Step.whileLoop? ∧ counters = blockStarted b ∧
      List.Forall₂ (CountedBy s.scope) loops counters ∧
      (∀ n, n ∈ s'.scope.names ↔ n ∈ s.scope.names ∨
        (∃ step ∈ flow.steps (fun _ => true) levels, step.Assigns n) ∨ n ∈ counters) ∧
      ((∀ n, n ∈ s'.scope.names ↔ n ∈ s.scope.names ∨ n ∈ names ∨ n ∈ unnamedCounters loops counters) ↔
        ∀ loop ∈ loops, (∀ index, loop.indexVar.identifier? = some index → index ∈ s'.scope.names) ∧
          ∀ counter, loop.counterVar.identifier? = some counter →
            counter ∈ s.scope.names ∨ counter ∈ names ∨ counter ∈ unnamedCounters loops counters) := by
  have hrun : (flowBlock ctx levels flow).Runs s b s' := by
    simp only [flowAt, runs_bind, runs_lift] at h
    obtain ⟨_, _, ⟨hl, rfl⟩, h⟩ := h
    obtain rfl := Except.ok.inj (hlevels.symm.trans hl)
    exact h
  -- Nothing is skipped, so every step that the walk visits is compiled.
  have hkept : ∀ step ∈ flow.steps (fun step => !step.isSkipped) levels, step.isSkipped = false := by
    intro step hstep
    obtain ⟨more, hmore, hmem⟩ := (flowBlock_records hrun).skipped
    have hnone : more = [] := List.append_cancel_left (hmore.symm.trans (hskipped.trans (List.append_nil _).symm))
    cases hskip : step.isSkipped with
    | false => rfl
    | true => exact absurd ((hmem step).mpr ⟨hstep, hskip⟩) (by simp [hnone])
  have hcompiled : flow.steps (fun _ => true) levels = flow.steps (fun step => !step.isSkipped) levels :=
    Flow.steps_congr fun step hstep => by rw [hkept step hstep]; rfl
  have hnot : ∀ step ∈ flow.steps (fun _ => true) levels, step.isSkipped = false := by rwa [hcompiled]
  have hvisited : flow.steps (fun _ => true) walked = flow.steps (fun _ => true) levels := by
    obtain rfl | ⟨hwithin, hwithin'⟩ := hwalked
    · rfl
    · exact Flow.steps_of_within hwithin hwithin'
  have hvalues : ∀ step ∈ flow.steps (fun _ => true) walked, ∃ values, step.boundValues = .ok values := by
    intro step hstep
    rw [hvisited] at hstep
    obtain ⟨_, _, _, _, hstepRun⟩ := exists_run_of_mem_steps hrun (by rwa [← hcompiled])
    exact (stepRun_of_runs hstepRun).exists_boundValues (hnot step hstep)
  obtain ⟨names, hnames⟩ := exists_boundNames true hvalues
  have hgains := flowBlock_gains (fun step hstep => ⟨hnot step hstep, hsteps step hstep⟩) hrun
  refine ⟨names, _, _, hnames, rfl, rfl, hgains.counted, hgains.scope, ?_⟩
  -- What the walk finds and what is in scope differ by the indices and the named counters of the loops.
  have hfound (n : String) : n ∈ names ↔ (∃ step ∈ flow.steps (fun _ => true) levels, step.Assigns n) ∨
      ∃ loop ∈ (flow.steps (fun _ => true) levels).filterMap Step.whileLoop?, loop.indexVar.identifier? = some n := by
    rw [mem_boundNames_iff hnames, hvisited]
    constructor
    · rintro ⟨step, hstep, hbound⟩
      obtain hassigns | ⟨loop, hloop, hindex⟩ := (bound_iff_assigns_or_index (hsteps step hstep).2).mp hbound
      · exact .inl ⟨step, hstep, hassigns⟩
      · exact .inr ⟨loop, List.mem_filterMap.mpr ⟨step, hstep, hloop⟩, hindex⟩
    · rintro (⟨step, hstep, hassigns⟩ | ⟨loop, hmem, hindex⟩)
      · exact ⟨step, hstep, (bound_iff_assigns_or_index (hsteps step hstep).2).mpr (.inl hassigns)⟩
      · obtain ⟨step, hstep, hloop⟩ := List.mem_filterMap.mp hmem
        exact ⟨step, hstep, (bound_iff_assigns_or_index (hsteps step hstep).2).mpr (.inr ⟨loop, hloop, hindex⟩)⟩
  have hcounters (n : String) := mem_counters_iff hgains.counted (n := n)
  constructor
  · intro hall loop hloop
    constructor
    · intro index hindex
      exact (hall index).mpr (.inr (.inl ((hfound index).mpr (.inr ⟨loop, hloop, hindex⟩))))
    · intro counter hcounter
      refine (hall counter).mp ((hgains.scope counter).mpr (.inr (.inr ?_)))
      exact (hcounters counter).mpr (.inl ⟨loop, hloop, hcounter⟩)
  · intro hloops n
    constructor
    · intro hn
      obtain hbefore | hassigns | hcounter := (hgains.scope n).mp hn
      · exact .inl hbefore
      · exact .inr (.inl ((hfound n).mpr (.inl hassigns)))
      · obtain ⟨loop, hloop, hnamed⟩ | hunnamed := (hcounters n).mp hcounter
        · exact (hloops loop hloop).2 n hnamed
        · exact .inr (.inr hunnamed)
    · rintro (hbefore | hname | hunnamed)
      · exact (hgains.scope n).mpr (.inl hbefore)
      · obtain hassigns | ⟨loop, hloop, hindex⟩ := (hfound n).mp hname
        · exact (hgains.scope n).mpr (.inr (.inl hassigns))
        · exact (hloops loop hloop).1 n hindex
      · exact (hgains.scope n).mpr (.inr (.inr ((hcounters n).mpr (.inr hunnamed))))

/-- A conditional loop with the given fields and an empty body. -/
def whileStep (fields : Fields) : Value :=
  .map [(.text "loop", .map ([(.text "type", .text "while"), (.text "condition", .text "c")] ++ fields))]

/-- A loop over a collection with a query in it, a conditional loop and a guarded block with a handler. -/
def loopFlow : Flow :=
  [.map [(.text "loop", .map [(.text "type", .text "for"), (.text "items", .list [.int 1]),
      (.text "as", .text "x"), (.text "index", .text "k"),
      (.text "flow", .list [.map [(.text "aiQuery", .text "q"), (.text "name", .text "r")]])])],
    whileStep [(.text "flow", .list [.map [(.text "variables", .map [(.text "v", .int 1)])]])],
    .map [(.text "try", .list []), (.text "catch", .map [(.text "error", .text "failure")])]]

theorem loopFlow_scope_iff_boundNames :
    ∃ b s', (flowAt {} 1 loopFlow).Runs { scope := ⟨["_while_iter"]⟩ } b s' ∧ s'.skipped = [] ∧
      (∀ step ∈ loopFlow.steps (fun _ => true) 50, step.kind ≠ .parallel ∧ step.givesNames = true) ∧
      loopFlow.boundNames true 50 = .ok ["x", "k", "r", "v", "failure"] ∧
      ∀ n, n ∈ s'.scope.names ↔
        n ∈ ["_while_iter"] ∨ n ∈ ["x", "k", "r", "v", "failure"] ∨ n ∈ ["_while_iter_1"] := by
  have hshape : ((flowAt {} 1 loopFlow).run { scope := ⟨["_while_iter"]⟩ }).toOption.map
      (fun r => (blockStarted r.1, r.2.skipped.length)) = some (["_while_iter_1"], 0) := by decide +kernel
  have hsteps : ∀ step ∈ loopFlow.steps (fun _ => true) 50, step.kind ≠ .parallel ∧ step.givesNames = true := by
    decide +kernel
  have hbound : loopFlow.boundNames true 50 = .ok ["x", "k", "r", "v", "failure"] := by rfl
  cases hrun : (flowAt {} 1 loopFlow).run { scope := ⟨["_while_iter"]⟩ } with
  | error e => simp [hrun, Except.toOption] at hshape
  | ok r =>
    obtain ⟨b, s'⟩ := r
    rw [hrun] at hshape
    obtain ⟨hstarted, hlength⟩ := Prod.mk.inj (Option.some.inj hshape)
    have hskipped : s'.skipped = [] := List.eq_nil_of_length_eq_zero hlength
    obtain ⟨names, loops, counters, hnames, rfl, rfl, -, -, hiff⟩ :=
      scope_iff_boundNames rfl hrun hskipped hsteps (.inl rfl)
    obtain rfl := Except.ok.inj (hbound.symm.trans hnames)
    have hplain : ∀ loop ∈ (loopFlow.steps (fun _ => true) 50).filterMap Step.whileLoop?,
        loop.indexVar.identifier? = none ∧ loop.counterVar.identifier? = none := by decide +kernel
    have hunnamed : unnamedCounters ((loopFlow.steps (fun _ => true) 50).filterMap Step.whileLoop?)
        ["_while_iter_1"] = ["_while_iter_1"] := by decide +kernel
    refine ⟨b, s', hrun, hskipped, hsteps, hbound, ?_⟩
    rw [hstarted, hunnamed] at hiff
    refine hiff.mpr fun loop hloop => ⟨fun index hindex => ?_, fun counter hcounter => ?_⟩
    · cases (hplain loop hloop).1.symm.trans hindex
    · cases (hplain loop hloop).2.symm.trans hcounter

/-- The counter that a conditional loop names is in scope and is not found by the walk, and the index that
it gives is found by the walk and not in scope. -/
theorem while_names_not_found :
    ((flowAt {} 1 [whileStep [(.text "counterVar", .text "tries")]]).run {}).toOption.map (·.2.scope.names) =
        some ["tries"] ∧
      Flow.boundNames true 50 [whileStep [(.text "counterVar", .text "tries")]] = .ok [] ∧
      ((flowAt {} 1 [whileStep [(.text "indexVar", .text "idx")]]).run {}).toOption.map (·.2.scope.names) =
        some ["_while_iter"] ∧
      Flow.boundNames true 50 [whileStep [(.text "indexVar", .text "idx")]] = .ok ["idx"] := by
  refine ⟨by decide +kernel, rfl, by decide +kernel, rfl⟩

end Program

end FlowScript
