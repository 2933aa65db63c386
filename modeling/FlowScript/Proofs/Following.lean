import FlowScript.Proofs.Lookup
import FlowScript.Proofs.Step
import FlowScript.Program.Document

/-!
# Needs along a pass

A pass asks for imports and helpers far from where their names are written. Two things are followed
through every rule at once. Needs are only ever added, and those of a step are there when its rule is
done. And unless the module that reads the environment is asked for, the pass does not depend on how the
environment is read: with any other way to read it, the pass runs alike.
-/
namespace FlowScript.Program

open Construct Pass

/-! ## Needs -/

/-- What a program may need. -/
inductive Need where
  | statement (s : String)
  | helper (h : Helper)

def Needs.Has (needs : Needs) : Need → Prop
  | .statement s => s ∈ needs.imports
  | .helper h => h ∈ needs.helpers

/-- The module that reads the environment. -/
def environmentModule : Need := .statement "import os"

/-- A statement has to name a module; a helper always can be written. -/
def Need.isSound : Need → Prop
  | .statement s => checkStatement s = .ok ()
  | .helper _ => True

theorem has_addImport {needs : Needs} {statement : String} {need : Need} :
    (needs.addImport statement).Has need ↔ needs.Has need ∨ need = .statement statement := by
  unfold Needs.addImport
  cases need with
  | statement s =>
    simp only [Needs.Has, Need.statement.injEq]
    split_ifs with h
    · rw [List.contains_iff_mem] at h
      exact ⟨.inl, Or.rec id fun hs => hs ▸ h⟩
    · simp
  | helper h =>
    simp only [Needs.Has, reduceCtorEq, or_false]
    split_ifs <;> rfl

theorem has_addHelper {needs : Needs} {helper : Helper} {need : Need} :
    (needs.addHelper helper).Has need ↔ needs.Has need ∨ need = .helper helper := by
  unfold Needs.addHelper
  cases need with
  | helper h =>
    simp only [Needs.Has, Need.helper.injEq]
    split_ifs with hmem
    · rw [List.contains_iff_mem] at hmem
      exact ⟨.inl, Or.rec id fun hh => hh ▸ hmem⟩
    · simp
  | statement s =>
    simp only [Needs.Has, reduceCtorEq, or_false]
    split_ifs <;> rfl

/-- What an import needs, by the extension of its file. -/
def importNeeds (extension : String) (asData : Bool) : List Need :=
  if extension == ".json" then [.statement "import json", .statement "from pathlib import Path"]
  else if File.documentExtensions.contains extension then
    if asData then [.statement "import yaml", .statement "from pathlib import Path"] else []
  else if extension == ".py" then [.helper .loadModule]
  else []

def operationNeeds : Operation → List Need
  | .sort => [.helper .sortKey]
  | .unique | .distinct => [.helper .unique]
  | .flatten => [.helper .flatten]
  | .groupBy => [.helper .groupBy]
  | .reduce => [.statement "import functools"]
  | .filter | .map | .slice => []

/-- What the program that a step becomes needs. -/
def stepNeeds (step : Step) : List Need :=
  match step.kind with
  | .action => if step.actionKeyword? == some "sleep" then [.statement "import asyncio"] else []
  | .call =>
    if ((step.get "external_call").field "type").isTextOf "http" then [.helper .httpRequest]
    else [.statement "import subprocess"]
  | .transform =>
    match Transform.read? step with
    | .ok (some transform) => transform.stages.flatMap fun stage => operationNeeds stage.operation
    | _ => []
  | .importing =>
    (step.get "import").nonBlank?.elim [] fun path => importNeeds (File.extension path) false
  | .parallel => if (step.get "parallel").branches?.any (·.isEmpty) then [] else [.helper .gatherAll]
  | _ => []

/-! ## States -/

/-- From one state to the next needs are only added, each of them sound, no step is lost, and the steps
given to their rules meanwhile have what they need. -/
structure Pass.State.Gathers (s s' : State) : Prop where
  kept : ∀ need, s.needs.Has need → s'.needs.Has need
  sound : ∀ need, s'.needs.Has need → s.needs.Has need ∨ need.isSound
  hands : s.handed ⊆ s'.handed
  handed : ∀ step ∈ s'.handed, step ∈ s.handed ∨ step.isSkipped = true ∨
    ∀ need ∈ stepNeeds step, s'.needs.Has need

namespace Pass.State.Gathers

variable {s t s' : State}

theorem of_eq (hneeds : s'.needs = s.needs) (hhanded : s'.handed = s.handed) : s.Gathers s' where
  kept need h := by rwa [hneeds]
  sound need h := .inl (by rwa [hneeds] at h)
  hands := by rw [hhanded]; exact List.Subset.refl _
  handed step h := .inl (by rwa [hhanded] at h)

theorem of_asked {asked : Need} (hneeds : ∀ need, s'.needs.Has need ↔ s.needs.Has need ∨ need = asked)
    (hsound : asked.isSound) (hhanded : s'.handed = s.handed) : s.Gathers s' where
  kept need h := (hneeds need).mpr (.inl h)
  sound need h := by
    refine ((hneeds need).mp h).imp_right ?_
    rintro rfl
    exact hsound
  hands := by rw [hhanded]; exact List.Subset.refl _
  handed step h := .inl (by rwa [hhanded] at h)

protected theorem trans (h : s.Gathers t) (h' : t.Gathers s') : s.Gathers s' where
  kept need hn := h'.kept need (h.kept need hn)
  sound need hn := (h'.sound need hn).elim (h.sound need) .inr
  hands := List.Subset.trans h.hands h'.hands
  handed step hs := by
    rcases h'.handed step hs with hs | hs
    · refine (h.handed step hs).imp_right (Or.imp_right fun hall need hneed => ?_)
      exact h'.kept need (hall need hneed)
    · exact .inr hs

end Pass.State.Gathers

/-! ## Passes -/

variable {α β : Type}

/-- Every run of a pass gathers needs, and unless it has asked for the module that reads the environment,
the other pass runs alike. -/
def Follows (p q : Pass α) : Prop :=
  ∀ ⦃s : State⦄ ⦃a : α⦄ ⦃s' : State⦄, p.Runs s a s' →
    s.Gathers s' ∧ (¬ s'.needs.Has environmentModule → q.Runs s a s')

namespace Follows

variable {p q : Pass α}

protected theorem modify {f : State → State} (hneeds : ∀ s, (f s).needs = s.needs)
    (hhanded : ∀ s, (f s).handed = s.handed) : Follows (modify f : Pass PUnit) (modify f) := by
  intro s u s' h
  obtain rfl := runs_modify.mp h
  exact ⟨.of_eq (hneeds s) (hhanded s), fun _ => h⟩

protected theorem pure (a : α) : Follows (pure a) (pure a) := by
  intro s b s' h
  obtain ⟨-, rfl⟩ := runs_pure.mp h
  exact ⟨.of_eq rfl rfl, fun _ => h⟩

protected theorem get : Follows (get : Pass State) get := by
  intro s a s' h
  obtain ⟨-, rfl⟩ := runs_get.mp h
  exact ⟨.of_eq rfl rfl, fun _ => h⟩

protected theorem bind {f g : α → Pass β} (hp : Follows p q) (hf : ∀ a, Follows (f a) (g a)) :
    Follows (p >>= f) (q >>= g) := by
  intro s b s' h
  obtain ⟨a, t, h₁, h₂⟩ := runs_bind.mp h
  obtain ⟨hgather, hsame⟩ := hp h₁
  obtain ⟨hgather', hsame'⟩ := hf a h₂
  refine ⟨hgather.trans hgather', fun hnot => runs_bind.mpr ⟨a, t, hsame fun hhas => ?_, hsame' hnot⟩⟩
  exact hnot (hgather'.kept _ hhas)

/-- A result that is there is known in what follows. -/
protected theorem lift_bind {e : Except Fault α} {f g : α → Pass β}
    (hf : ∀ a, e = .ok a → Follows (f a) (g a)) : Follows (liftM e >>= f) (liftM e >>= g) := by
  intro s b s' h
  obtain ⟨a, t, h₁, h₂⟩ := runs_bind.mp h
  obtain ⟨he, rfl⟩ := runs_lift.mp h₁
  obtain ⟨hgather, hsame⟩ := hf a he h₂
  exact ⟨hgather, fun hnot => runs_bind.mpr ⟨a, s, h₁, hsame hnot⟩⟩

protected theorem lift (e : Except Fault α) : Follows (liftM e : Pass α) (liftM e) := by
  intro s a s' h
  obtain ⟨-, rfl⟩ := runs_lift.mp h
  exact ⟨.of_eq rfl rfl, fun _ => h⟩

protected theorem ite {c : Prop} [Decidable c] {p' q' : Pass α} (hp : Follows p q) (hp' : Follows p' q') :
    Follows (if c then p else p') (if c then q else q') := by
  split_ifs
  · exact hp
  · exact hp'

protected theorem warn (message : String) : Follows (warn message) (warn message) :=
  .modify (fun _ => rfl) fun _ => rfl

protected theorem declare (name : String) : Follows (declare name) (declare name) :=
  .modify (fun _ => rfl) fun _ => rfl

protected theorem requireImport {statement : String} (hsound : checkStatement statement = .ok ()) :
    Follows (requireImport statement) (requireImport statement) := by
  intro s u s' h
  obtain rfl := runs_modify.mp h
  exact ⟨.of_asked (fun _ => has_addImport) hsound rfl, fun _ => h⟩

protected theorem requireHelper (helper : Helper) :
    Follows (requireHelper helper) (requireHelper helper) := by
  intro s u s' h
  obtain rfl := runs_modify.mp h
  exact ⟨.of_asked (fun _ => has_addHelper) trivial rfl, fun _ => h⟩

protected theorem each {f g : α → Pass Block} {entries : List α}
    (hf : ∀ entry ∈ entries, Follows (f entry) (g entry)) : Follows (each f entries) (each g entries) := by
  induction entries with
  | nil => exact .pure _
  | cons entry rest ih =>
    exact .bind (hf entry List.mem_cons_self) fun _ =>
      .bind (ih fun entry hentry => hf entry (List.mem_cons_of_mem _ hentry)) fun _ => .pure _

protected theorem self (h : Follows p q) : Follows p p := fun _ _ _ hrun => ⟨(h hrun).1, fun _ => hrun⟩

end Follows

/-- A pass over a list comes to each entry, and only gathers after it. -/
theorem exists_run_of_each {f : α → Pass Block} (hf : ∀ entry, Follows (f entry) (f entry)) {entries : List α}
    {entry : α} (hentry : entry ∈ entries) {s s' : State} {b : Block} (h : (each f entries).Runs s b s') :
    ∃ t c t', (f entry).Runs t c t' ∧ t'.Gathers s' := by
  induction entries generalizing s b with
  | nil => cases hentry
  | cons first rest ih =>
    obtain ⟨_, t, _, hfirst, hrest, -⟩ := runs_each_cons.mp h
    rcases List.mem_cons.mp hentry with rfl | hentry
    · have hfollows : Follows (each f rest) (each f rest) := .each fun entry _ => hf entry
      exact ⟨_, _, _, hfirst, (hfollows hrest).1⟩
    · exact ih hentry hrest

/-- Every run of a pass ends with a need asked for. -/
def Asks (need : Need) (p : Pass α) : Prop :=
  ∀ ⦃s : State⦄ ⦃a : α⦄ ⦃s' : State⦄, p.Runs s a s' → s'.needs.Has need

namespace Asks

variable {need : Need} {p : Pass α} {f : α → Pass β}

protected theorem requireImport (statement : String) : Asks (.statement statement) (requireImport statement) := by
  intro s u s' h
  obtain rfl := runs_modify.mp h
  exact has_addImport.mpr (.inr rfl)

protected theorem requireHelper (helper : Helper) : Asks (.helper helper) (requireHelper helper) := by
  intro s u s' h
  obtain rfl := runs_modify.mp h
  exact has_addHelper.mpr (.inr rfl)

/-- What is asked for first is kept. -/
theorem first (hp : Asks need p) (hf : ∀ a, Follows (f a) (f a)) : Asks need (p >>= f) := by
  intro s b s' h
  obtain ⟨a, t, h₁, h₂⟩ := runs_bind.mp h
  exact (hf a h₂).1.kept need (hp h₁)

theorem later (hf : ∀ a, Asks need (f a)) : Asks need (p >>= f) := by
  intro s b s' h
  obtain ⟨a, t, -, h⟩ := runs_bind.mp h
  exact hf a h

theorem lift_later {e : Except Fault α} (hf : ∀ a, e = .ok a → Asks need (f a)) : Asks need (liftM e >>= f) := by
  intro s b s' h
  obtain ⟨a, t, h₁, h⟩ := runs_bind.mp h
  exact hf a (runs_lift.mp h₁).1 h

/-- What a pass starts by asking for is kept, as far as asking again changes nothing: the rest of a run is
then part of a run of the whole pass from where it starts. -/
theorem of_again (hp : Asks need p) (hagain : ∀ {s a t}, p.Runs s a t → p.Runs t a t)
    (h : Follows (p >>= f) (p >>= f)) : Asks need (p >>= f) := by
  intro s b s' hrun
  obtain ⟨a, t, h₁, h₂⟩ := runs_bind.mp hrun
  exact (h (runs_bind.mpr ⟨a, t, hagain h₁, h₂⟩)).1.kept need (hp h₁)

theorem of_requireImport {statement : String} {f : Unit → Pass β}
    (h : Follows (requireImport statement >>= f) (requireImport statement >>= f)) :
    Asks (.statement statement) (requireImport statement >>= f) := by
  refine of_again (.requireImport statement) (fun hrun => ?_) h
  have hhas := Asks.requireImport statement hrun
  refine runs_modify.mpr ?_
  rw [Needs.addImport, if_pos (List.contains_iff_mem.mpr hhas)]

theorem of_requireHelper {helper : Helper} {f : Unit → Pass β}
    (h : Follows (requireHelper helper >>= f) (requireHelper helper >>= f)) :
    Asks (.helper helper) (requireHelper helper >>= f) := by
  refine of_again (.requireHelper helper) (fun hrun => ?_) h
  have hhas := Asks.requireHelper helper hrun
  refine runs_modify.mpr ?_
  rw [Needs.addHelper, if_pos (List.contains_iff_mem.mpr hhas)]

/-- A pass that asks for the module that reads the environment may be followed by any other. -/
theorem follows {p q : Pass α} (h : Asks environmentModule p) (hp : Follows p p) : Follows p q :=
  fun _ _ _ hrun => ⟨(hp hrun).1, fun hnot => absurd (h hrun) hnot⟩

protected theorem each {f : α → Pass Block} {entries : List α} {entry : α} (hentry : entry ∈ entries)
    (h : Asks need (f entry)) (hf : ∀ entry, Follows (f entry) (f entry)) : Asks need (each f entries) := by
  intro s b s' hrun
  obtain ⟨_, _, _, hentry, hgathers⟩ := exists_run_of_each hf hentry hrun
  exact hgathers.kept need (h hentry)

end Asks

/-! ## Values and expressions -/

/-- The same context where the environment is read in another way. -/
def Context.lookingUp (ctx : Context) (lookup : List Char → List Char) : Context :=
  { ctx with agent := { ctx.agent with lookup } }

/-- Values are searched for environment markers as deep as they are resolved. -/
def Context.SearchesResolved (ctx : Context) : Prop :=
  ∀ levels, ctx.settings.maxResolveDepth.most = .ok levels → levels ≤ Literal.environmentLevels

section Rules

variable {ctx : Context} {lookup : List Char → List Char}

theorem reference?_lookingUp (v : Value) :
    v.reference? (ctx.lookingUp lookup).agent.lookup = v.reference? ctx.agent.lookup :=
  v.reference?_eq

theorem targetName_follows (v : Value) (fallback what : String) :
    Follows (targetName v fallback what) (targetName v fallback what) := by
  unfold targetName
  split
  · exact .pure _
  · exact .ite (.bind (.lift _) fun _ => .bind (.warn _) fun _ => .pure _) (.pure _)

theorem skip_follows (reason : String) (entry : Value) : Follows (skip reason entry) (skip reason entry) :=
  .bind (.lift _) fun _ => .bind (.warn _) fun _ =>
    .bind (.modify (fun _ => rfl) fun _ => rfl) fun _ => .pure _

variable (hdepth : ctx.SearchesResolved)

include hdepth

theorem valueCode_follows (v : Value) : Follows (valueCode ctx v) (valueCode (ctx.lookingUp lookup) v) := by
  unfold valueCode
  refine .bind (.lift _) fun _ => ?_
  split_ifs with huse
  · exact Asks.follows (.first (.requireImport _) fun _ => .bind (.lift _) fun _ => .pure _)
      (.bind (.requireImport rfl) fun _ => .bind (.lift _) fun _ => .pure _)
  · refine .lift_bind fun levels hlevels => ?_
    have hunread := Literal.unread_of_usesEnvironment (by simpa using huse) (hdepth levels hlevels)
    rw [Literal.code_eq v hunread]
    exact .pure _

theorem expressionCode_follows (target : Option String) (v : Value) :
    Follows (expressionCode ctx target v) (expressionCode (ctx.lookingUp lookup) target v) := by
  unfold expressionCode
  split
  · split_ifs with huse
    · exact Asks.follows (.first (.requireImport _) fun _ => .bind .get fun _ => .pure _)
        (.bind (.requireImport rfl) fun _ => .bind .get fun _ => .pure _)
    · refine .bind .get fun s => ?_
      dsimp only
      rw [Expression.code_eq (by simpa using huse)]
      exact .pure _
  · exact valueCode_follows hdepth _

theorem collectionCode_follows (v : Value) :
    Follows (collectionCode ctx v) (collectionCode (ctx.lookingUp lookup) v) := by
  unfold collectionCode
  rw [reference?_lookingUp]
  split
  · exact .pure _
  · split
    · exact .pure _
    · exact valueCode_follows hdepth v

theorem countCode_follows (v : Value) : Follows (countCode ctx v) (countCode (ctx.lookingUp lookup) v) := by
  unfold countCode
  refine .bind (.lift _) fun count => ?_
  cases count with
  | some n => exact .lift _
  | none =>
    dsimp only
    rw [reference?_lookingUp]
    split
    · exact .pure _
    · exact .bind (valueCode_follows hdepth v) fun _ => .pure _

theorem paramsCode_follows (params : Value) :
    Follows (paramsCode ctx params) (paramsCode (ctx.lookingUp lookup) params) :=
  .ite (.pure _) (.bind (valueCode_follows hdepth params) fun _ => .pure _)

/-! ## Transforms -/

omit hdepth in
theorem fieldLiteral_follows (v : Value) : Follows (fieldLiteral v) (fieldLiteral v) :=
  .ite (.pure _) (.bind (.lift _) fun _ => .pure _)

theorem filterCode_follows (stage : Stage) (data : String) :
    Follows (filterCode ctx stage data) (filterCode (ctx.lookingUp lookup) stage data) :=
  .ite (.bind (.warn _) fun _ => .pure _) (.bind (expressionCode_follows hdepth _ _) fun _ => .pure _)

omit hdepth in
theorem sortCode_follows (stage : Stage) (data : String) :
    Follows (sortCode stage data) (sortCode stage data) := by
  refine .bind (.requireHelper _) fun _ => .bind (.lift _) fun sorting => ?_
  have hrest : Follows
      (do let field ← fieldLiteral sorting.field
          return "sorted(" ++ data ++ ", key=lambda item: _sort_key(item, " ++ field ++
            (if sorting.order == "desc" then "), reverse=True)" else "))") : Pass String) _ :=
    .bind (fieldLiteral_follows _) fun _ => .pure _
  exact .ite (.bind (.warn _) fun _ => hrest) hrest

theorem mapCode_follows (stage : Stage) (data : String) :
    Follows (mapCode ctx stage data) (mapCode (ctx.lookingUp lookup) stage data) :=
  .ite (.bind (valueCode_follows hdepth _) fun _ => .pure _)
    (.ite (.bind (.warn _) fun _ => .pure _) (.bind (expressionCode_follows hdepth _ _) fun _ => .pure _))

theorem reduceCode_follows (stage : Stage) (data : String) :
    Follows (reduceCode ctx stage data) (reduceCode (ctx.lookingUp lookup) stage data) := by
  refine .bind (.requireImport rfl) fun _ => ?_
  have hrest (reducer : Value) : Follows
      (do let code ← expressionCode ctx none reducer
          let seed ← valueCode ctx ((stage.params.get? "initial").getD (.int 0))
          return "functools.reduce(lambda acc, item: " ++ code ++ ", " ++ data ++ ", " ++ seed ++ ")" : Pass String)
      (do let code ← expressionCode (ctx.lookingUp lookup) none reducer
          let seed ← valueCode (ctx.lookingUp lookup) ((stage.params.get? "initial").getD (.int 0))
          return "functools.reduce(lambda acc, item: " ++ code ++ ", " ++ data ++ ", " ++ seed ++ ")") :=
    .bind (expressionCode_follows hdepth _ _) fun _ => .bind (valueCode_follows hdepth _) fun _ => .pure _
  exact .ite (.bind (.warn _) fun _ => hrest _) (hrest _)

theorem boundCode_follows (v : Value) : Follows (boundCode ctx v) (boundCode (ctx.lookingUp lookup) v) :=
  .ite (.pure _) (valueCode_follows hdepth v)

theorem sliceCode_follows (stage : Stage) (data : String) :
    Follows (sliceCode ctx stage data) (sliceCode (ctx.lookingUp lookup) stage data) :=
  .bind (boundCode_follows hdepth _) fun _ => .bind (boundCode_follows hdepth _) fun _ => .pure _

omit hdepth in
theorem uniqueCode_follows (stage : Stage) (data : String) :
    Follows (uniqueCode stage data) (uniqueCode stage data) := by
  refine .bind (.requireHelper _) fun _ => ?_
  split
  · exact .pure _
  · exact .pure _
  · exact .bind (fieldLiteral_follows _) fun _ => .pure _

theorem flattenCode_follows (stage : Stage) (data : String) :
    Follows (flattenCode ctx stage data) (flattenCode (ctx.lookingUp lookup) stage data) :=
  .bind (.requireHelper _) fun _ => .bind (valueCode_follows hdepth _) fun _ => .pure _

omit hdepth in
theorem groupByCode_follows (stage : Stage) (data : String) :
    Follows (groupByCode stage data) (groupByCode stage data) :=
  .bind (.requireHelper _) fun _ => .bind (fieldLiteral_follows _) fun _ => .pure _

theorem stageCode_follows (stage : Stage) (data : String) :
    Follows (stageCode ctx stage data) (stageCode (ctx.lookingUp lookup) stage data) := by
  unfold stageCode
  cases stage.operation with
  | filter => exact filterCode_follows hdepth stage data
  | sort => exact sortCode_follows stage data
  | map => exact mapCode_follows hdepth stage data
  | reduce => exact reduceCode_follows hdepth stage data
  | slice => exact sliceCode_follows hdepth stage data
  | unique => exact uniqueCode_follows stage data
  | distinct => exact uniqueCode_follows stage data
  | flatten => exact flattenCode_follows hdepth stage data
  | groupBy => exact groupByCode_follows stage data

theorem stagesBlock_follows (output data : String) (stages : List Stage) :
    Follows (stagesBlock ctx output data stages) (stagesBlock (ctx.lookingUp lookup) output data stages) := by
  induction stages generalizing data with
  | nil => exact .pure _
  | cons stage rest ih =>
    exact .bind (stageCode_follows hdepth stage data) fun _ => .bind (ih output) fun _ => .pure _

omit hdepth in
theorem unknownOperations_follows (entries : List Value) :
    Follows (each unknownOperation entries) (each unknownOperation entries) :=
  .each fun _ _ => .bind (.lift _) fun _ => .bind (.warn _) fun _ => .pure _

theorem sourceCode_follows (source : Value) (output : String) :
    Follows (sourceCode ctx source output) (sourceCode (ctx.lookingUp lookup) source output) :=
  .ite (.bind (.warn _) fun _ => .pure _) (collectionCode_follows hdepth source)

theorem transformBlock_follows (step : Step) :
    Follows (transformBlock ctx step) (transformBlock (ctx.lookingUp lookup) step) := by
  refine .bind (.lift _) fun transform => ?_
  cases transform with
  | none => exact skip_follows _ _
  | some transform =>
    refine .bind (targetName_follows _ _ _) fun output => .bind (sourceCode_follows hdepth _ _) fun source =>
      .bind (unknownOperations_follows _) fun _ => .bind (.declare _) fun _ => ?_
    exact .ite (.pure _) (.bind (stagesBlock_follows hdepth _ _ _) fun _ => .pure _)

/-! ## Imports, calls, actions and variables -/

omit hdepth in
theorem importCode_follows (path extension code : String) (asData : Bool) :
    Follows (importCode path extension code asData) (importCode path extension code asData) := by
  refine .ite ?_ (.ite (.ite ?_ (.pure _)) (.ite ?_ ?_))
  · exact .bind (.requireImport rfl) fun _ => .bind (.requireImport rfl) fun _ => .pure _
  · exact .bind (.requireImport rfl) fun _ => .bind (.requireImport rfl) fun _ => .pure _
  · exact .bind (.requireHelper _) fun _ => .pure _
  · exact .ite (.bind (.warn _) fun _ => .pure _) (.pure _)

omit hdepth in
theorem importName_follows (given : Option String) : Follows (importName given) (importName given) := by
  cases given with
  | none => exact .pure _
  | some s => exact .bind (targetName_follows _ _ _) fun _ => .pure _

theorem importBlock_follows (imported : Import) (path : String) :
    Follows (importBlock ctx imported path) (importBlock (ctx.lookingUp lookup) imported path) := by
  refine .bind (valueCode_follows hdepth _) fun code => .bind (importName_follows _) fun name => ?_
  cases name with
  | some bound => exact .bind (importCode_follows _ _ _ _) fun _ => .bind (.declare _) fun _ => .pure _
  | none =>
    refine .ite (.bind (paramsCode_follows hdepth _) fun _ => .pure _) ?_
    exact .bind (importCode_follows _ _ _ _) fun _ => .bind (.warn _) fun _ => .pure _

theorem importStepBlock_follows (step : Step) :
    Follows (importStepBlock ctx step) (importStepBlock (ctx.lookingUp lookup) step) := by
  unfold importStepBlock
  dsimp only
  split
  · exact importBlock_follows hdepth _ _
  · exact skip_follows _ _

theorem entryBlock_follows (imported : Import) (path : String) :
    Follows (entryBlock ctx imported path) (entryBlock (ctx.lookingUp lookup) imported path) := by
  refine .ite (.bind (importName_follows _) fun name => ?_) (importBlock_follows hdepth _ _)
  cases name with
  | some bound => exact .bind (.declare _) fun _ => .bind (valueCode_follows hdepth _) fun _ => .pure _
  | none => exact importBlock_follows hdepth _ _

theorem documentImport_follows (entry : Value) :
    Follows (documentImport ctx entry) (documentImport (ctx.lookingUp lookup) entry) := by
  unfold documentImport
  split
  · exact entryBlock_follows hdepth _ _
  · exact .bind (.lift _) fun _ => .bind (.warn _) fun _ => .pure _

theorem useBlock_follows (step : Step) : Follows (useBlock ctx step) (useBlock (ctx.lookingUp lookup) step) := by
  unfold useBlock
  dsimp only
  split
  · exact skip_follows _ _
  · rw [reference?_lookingUp]
    refine .bind .get fun s => ?_
    have hrest (reference : String) : Follows
        (do let params ← paramsCode ctx (Use.ofStep step).params
            return [Item.line (.evaluate (ctx.agent.runFlow reference params))] : Pass Block)
        (do let params ← paramsCode (ctx.lookingUp lookup) (Use.ofStep step).params
            return [Item.line (.evaluate ((ctx.lookingUp lookup).agent.runFlow reference params))]) :=
      .bind (paramsCode_follows hdepth _) fun _ => .pure _
    split
    · exact hrest _
    · exact .ite (hrest _) (.bind (valueCode_follows hdepth _) fun _ => hrest _)

theorem payloadArgument_follows (v : Value) (what : String) :
    Follows (payloadArgument ctx v what) (payloadArgument (ctx.lookingUp lookup) v what) := by
  have hcode : Follows (payloadCode ctx v what) (payloadCode (ctx.lookingUp lookup) v what) :=
    .bind (.lift _) fun _ => .bind (.lift _) fun _ =>
      .ite (.bind (.lift _) fun _ => .bind (.warn _) fun _ => valueCode_follows hdepth v) (valueCode_follows hdepth v)
  exact .ite (.pure _) (.bind hcode fun _ => .pure _)

theorem requestCode_follows (call : Call) :
    Follows (requestCode ctx call) (requestCode (ctx.lookingUp lookup) call) :=
  .bind (.requireHelper _) fun _ => .bind (valueCode_follows hdepth _) fun _ =>
    .bind (payloadArgument_follows hdepth _ _) fun _ => .bind (payloadArgument_follows hdepth _ _) fun _ => .pure _

theorem commandCode_follows (call : Call) :
    Follows (commandCode ctx call) (commandCode (ctx.lookingUp lookup) call) :=
  .bind (.requireImport rfl) fun _ => .bind (valueCode_follows hdepth _) fun _ => .pure _

omit hdepth in
theorem bindCall_follows (call : Call) {expression expression' : Pass String} (h : Follows expression expression') :
    Follows (bindCall call expression) (bindCall call expression') :=
  .bind h fun _ => .bind (targetName_follows _ _ _) fun _ => .bind (.declare _) fun _ => .pure _

theorem callBlock_follows (step : Step) :
    Follows (callBlock ctx step) (callBlock (ctx.lookingUp lookup) step) := by
  refine .bind (.lift _) fun call => ?_
  cases call with
  | none => exact skip_follows _ _
  | some call =>
    exact .ite (bindCall_follows call (requestCode_follows hdepth call))
      (.ite (bindCall_follows call (commandCode_follows hdepth call)) (skip_follows _ _))

theorem pause_follows (duration : Value) :
    Follows (pause ctx duration) (pause (ctx.lookingUp lookup) duration) := by
  refine .bind (.requireImport rfl) fun _ => .bind (.lift _) fun seconds => ?_
  cases seconds with
  | some seconds => exact .pure _
  | none => exact .bind (valueCode_follows hdepth _) fun _ => .pure _

theorem namedArguments_follows (options : Fields) :
    Follows (namedArguments ctx options) (namedArguments (ctx.lookingUp lookup) options) := by
  induction options with
  | nil => exact .pure _
  | cons option rest ih =>
    refine .bind (.lift _) fun _ => .ite ?_ (.bind (.warn _) fun _ => ih)
    exact .bind (valueCode_follows hdepth _) fun _ => .bind ih fun _ => .pure _

theorem actionBlock_follows (step : Step) :
    Follows (actionBlock ctx step) (actionBlock (ctx.lookingUp lookup) step) := by
  have harguments (invocation : Invocation) :
      Follows (arguments ctx invocation) (arguments (ctx.lookingUp lookup) invocation) :=
    .ite (namedArguments_follows hdepth _)
      (.bind (valueCode_follows hdepth _) fun _ => .bind (namedArguments_follows hdepth _) fun _ => .pure _)
  unfold actionBlock
  cases Action.read? step with
  | none => exact skip_follows _ _
  | some action =>
    refine .ite (pause_follows hdepth _) (.bind (harguments _) fun arguments => ?_)
    cases action.resultName with
    | none => exact .pure _
    | some given => exact .bind (targetName_follows _ _ _) fun _ => .bind (.declare _) fun _ => .pure _

theorem bindingsBlock_follows (bindings : Fields) :
    Follows (bindingsBlock ctx bindings) (bindingsBlock (ctx.lookingUp lookup) bindings) := by
  refine .each fun entry _ => ?_
  unfold bindingBlock
  split
  · exact .bind (.declare _) fun _ => .bind (valueCode_follows hdepth _) fun _ => .pure _
  · exact .bind (.lift _) fun _ => .bind (.warn _) fun _ => .pure _

theorem variablesBlock_follows (step : Step) :
    Follows (variablesBlock ctx step) (variablesBlock (ctx.lookingUp lookup) step) := by
  unfold variablesBlock
  split
  · exact bindingsBlock_follows hdepth _
  · exact skip_follows _ _

/-! ## Constructs with flows -/

variable {nested nested' : Flow → Pass Block} (hnested : ∀ flow, Follows (nested flow) (nested' flow))

include hnested

theorem conditionalBlock_follows (step : Step) :
    Follows (conditionalBlock ctx nested step) (conditionalBlock (ctx.lookingUp lookup) nested' step) := by
  refine .ite (skip_follows _ _) (.bind (valueCode_follows hdepth _) fun _ => .bind (hnested _) fun _ => ?_)
  exact .ite (.pure _) (.bind (hnested _) fun _ => .pure _)

theorem forBlock_follows (loop : Loop) :
    Follows (forBlock ctx nested loop) (forBlock (ctx.lookingUp lookup) nested' loop) := by
  refine .bind (collectionCode_follows hdepth _) fun _ => .bind (targetName_follows _ _ _) fun _ =>
    .bind (.declare _) fun _ => .ite (.bind (hnested _) fun _ => .pure _) ?_
  exact .bind (targetName_follows _ _ _) fun _ => .bind (.declare _) fun _ => .bind (hnested _) fun _ => .pure _

omit hdepth hnested in
theorem counterName_follows (loop : Loop) : Follows (counterName loop) (counterName loop) := by
  unfold counterName
  split
  · exact .bind (.declare _) fun _ => .pure _
  · exact .bind .get fun _ => .bind (.declare _) fun _ => .pure _

theorem whileBlock_follows (loop : Loop) :
    Follows (whileBlock ctx nested loop) (whileBlock (ctx.lookingUp lookup) nested' loop) := by
  refine .bind (counterName_follows loop) fun counter => ?_
  have hrest (bound : String) : Follows
      (do let condition ← valueCode ctx loop.condition
          let body ← nested loop.flow
          return [.line (.start counter),
            .block (.bounded counter bound (ctx.agent.check condition))
              (body ++ [.line (.increment counter)])] : Pass Block)
      (do let condition ← valueCode (ctx.lookingUp lookup) loop.condition
          let body ← nested' loop.flow
          return [.line (.start counter),
            .block (.bounded counter bound ((ctx.lookingUp lookup).agent.check condition))
              (body ++ [.line (.increment counter)])]) :=
    .bind (valueCode_follows hdepth _) fun _ => .bind (hnested _) fun _ => .pure _
  exact .ite (.bind (.lift _) fun _ => hrest _) (.bind (countCode_follows hdepth _) fun _ => hrest _)

theorem repeatBlock_follows (loop : Loop) :
    Follows (repeatBlock ctx nested loop) (repeatBlock (ctx.lookingUp lookup) nested' loop) := by
  have hrest (index : String) : Follows
      (do declare index
          let count ← countCode ctx loop.count
          let body ← nested loop.flow
          return [.block (.counted index count) (filled body)] : Pass Block)
      (do declare index
          let count ← countCode (ctx.lookingUp lookup) loop.count
          let body ← nested' loop.flow
          return [.block (.counted index count) (filled body)]) :=
    .bind (.declare _) fun _ => .bind (countCode_follows hdepth _) fun _ => .bind (hnested _) fun _ => .pure _
  exact .ite (.bind (.pure _) fun _ => hrest _) (.bind (targetName_follows _ _ _) fun _ => hrest _)

theorem loopBlock_follows (step : Step) :
    Follows (loopBlock ctx nested step) (loopBlock (ctx.lookingUp lookup) nested' step) := by
  unfold loopBlock
  cases Loop.read? step with
  | none => exact skip_follows _ _
  | some loop =>
    dsimp only
    split
    · exact .ite (skip_follows _ _) (forBlock_follows hdepth hnested loop)
    · exact .ite (skip_follows _ _) (whileBlock_follows hdepth hnested loop)
    · exact .ite (skip_follows _ _) (repeatBlock_follows hdepth hnested loop)
    · exact skip_follows _ _

omit hdepth in
theorem guardBlock_follows (step : Step) : Follows (guardBlock nested step) (guardBlock nested' step) := by
  have hhandler (guard : Guard) : Follows (handlerBlock nested guard) (handlerBlock nested' guard) := by
    unfold handlerBlock
    cases guard.handler with
    | some flow =>
      exact .bind (targetName_follows _ _ _) fun _ => .bind (.declare _) fun _ => .bind (hnested _) fun _ => .pure _
    | none => exact .ite (.pure _) (.bind (.warn _) fun _ => .pure _)
  have hcleanup (guard : Guard) : Follows (cleanupBlock nested guard) (cleanupBlock nested' guard) := by
    unfold cleanupBlock
    cases guard.cleanup with
    | some flow => exact .bind (hnested _) fun _ => .pure _
    | none => exact .pure _
  have hrest (guard : Guard) : Follows
      (do let body ← nested (guard.body.getD [])
          let handler ← handlerBlock nested guard
          let cleanup ← cleanupBlock nested guard
          return .block .attempt (filled body) :: (handler ++ cleanup) : Pass Block)
      (do let body ← nested' (guard.body.getD [])
          let handler ← handlerBlock nested' guard
          let cleanup ← cleanupBlock nested' guard
          return .block .attempt (filled body) :: (handler ++ cleanup)) :=
    .bind (hnested _) fun _ => .bind (hhandler _) fun _ => .bind (hcleanup _) fun _ => .pure _
  exact .ite (.bind (.warn _) fun _ => hrest _) (hrest _)

omit hdepth hnested in
theorem hoist_follows (names : List String) : Follows (hoist names) (hoist names) := by
  induction names with
  | nil => exact .pure _
  | cons name rest ih => exact .bind .get fun _ => .bind (.declare _) fun _ => .bind ih fun _ => .pure _

omit hdepth hnested in
theorem declareAll_follows (names : List String) : Follows (declareAll names) (declareAll names) := by
  induction names with
  | nil => exact .pure _
  | cons name rest ih => exact .bind (.declare _) fun _ => ih

omit hdepth in
theorem branchBlock_follows (merges : Bool) (group : Nat) (branch : NamedBranch) :
    Follows (branchBlock nested merges group branch) (branchBlock nested' merges group branch) := by
  have hkeep : Follows (keepScope (nested branch.branch.flow)) (keepScope (nested' branch.branch.flow)) :=
    .bind .get fun _ => .bind (hnested _) fun _ => .bind (.modify (fun _ => rfl) fun _ => rfl) fun _ => .pure _
  have hend (body : Block) : Follows (branchEnd merges branch.branch.flow branch.names body)
      (branchEnd merges branch.branch.flow branch.names body) :=
    .ite (.bind (.lift _) fun _ => .pure _) (.pure _)
  exact .bind hkeep fun _ => .bind (hend _) fun _ => .pure _

omit hdepth in
theorem parallelBlock_follows (step : Step) :
    Follows (parallelBlock ctx nested step) (parallelBlock (ctx.lookingUp lookup) nested' step) := by
  unfold parallelBlock
  cases Parallel.read? step with
  | none => exact skip_follows _ _
  | some parallel =>
    refine .ite (.bind (.warn _) fun _ => .pure _) ?_
    refine .bind (.requireHelper _) fun _ => .bind (.bind (.modify (fun _ => rfl) fun _ => rfl) fun _ =>
      .bind .get fun _ => .pure _) fun group => .bind (.lift _) fun branches => .bind (hoist_follows _) fun _ => ?_
    exact .bind (.each fun branch _ => branchBlock_follows hnested _ _ branch) fun _ =>
      .bind (declareAll_follows _) fun _ => .pure _

theorem stepBlock_follows (step : Step) :
    Follows (stepBlock ctx nested step) (stepBlock (ctx.lookingUp lookup) nested' step) := by
  unfold stepBlock
  split
  case h_1 => exact variablesBlock_follows hdepth step
  case h_2 => exact conditionalBlock_follows hdepth hnested step
  case h_3 => exact loopBlock_follows hdepth hnested step
  case h_4 => exact importStepBlock_follows hdepth step
  case h_5 => exact transformBlock_follows hdepth step
  case h_6 => exact guardBlock_follows hnested step
  case h_7 => exact callBlock_follows hdepth step
  case h_8 => exact parallelBlock_follows hnested step
  case h_9 => exact useBlock_follows hdepth step
  case h_10 => exact actionBlock_follows hdepth step
  case h_11 => exact skip_follows _ _

end Rules

end FlowScript.Program
