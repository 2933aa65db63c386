import FlowScript.Proofs.Names
import FlowScript.Proofs.TransformForms

/-!
# The arguments of an action

An action is one call on the agent, with at most one argument by position and with an argument by name for
each option whose name can be written. The names are those of the options in snake case. Two options may
have one name then, and the test of names tolerates a line feed at the end, so a call need not be legal.
The main statement says what the arguments of every action are, and exactly when their names are legal and
differ.
-/
namespace FlowScript.Program

open Construct Pass

/-! ## Passes with one answer -/

/-- A pass that has the same answer in every state, and has one exactly under a condition. -/
def Pass.Yields {α : Type} (p : Pass α) (can : Prop) (answer : α) : Prop :=
  ∀ s a, (∃ s', p.Runs s a s') ↔ can ∧ a = answer

namespace Pass.Yields

variable {α β : Type} {can can' : Prop}

protected theorem pure (a : α) : (pure a : Pass α).Yields True a := by
  intro s b
  simp

protected theorem bind {p : Pass α} {f : α → Pass β} {a : α} {b : β} (hp : p.Yields can a)
    (hf : (f a).Yields can' b) : (p >>= f).Yields (can ∧ can') b := by
  intro s c
  constructor
  · rintro ⟨s', h⟩
    obtain ⟨x, t, hx, h⟩ := runs_bind.mp h
    obtain ⟨hcan, rfl⟩ := (hp s x).mp ⟨t, hx⟩
    obtain ⟨hcan', rfl⟩ := (hf t c).mp ⟨s', h⟩
    exact ⟨⟨hcan, hcan'⟩, rfl⟩
  · rintro ⟨⟨hcan, hcan'⟩, rfl⟩
    obtain ⟨t, ht⟩ := (hp s a).mpr ⟨hcan, rfl⟩
    obtain ⟨s', hs'⟩ := (hf t c).mpr ⟨hcan', rfl⟩
    exact ⟨s', runs_bind.mpr ⟨a, t, ht, hs'⟩⟩

protected theorem lift {e : Except Fault α} {a : α} (h : ∀ b, e = .ok b ↔ can ∧ b = a) :
    (liftM e : Pass α).Yields can a := by
  intro s b
  simp [h]

protected theorem modify (f : State → State) : (modify f : Pass PUnit).Yields True .unit := by
  intro s u
  simp

protected theorem if_pos {c : Prop} [Decidable c] (hc : c) {p q : Pass α} {a : α} (hp : p.Yields can a) :
    (if c then p else q).Yields can a := by
  rwa [if_pos hc]

protected theorem if_neg {c : Prop} [Decidable c] (hc : ¬ c) {p q : Pass α} {a : α} (hq : q.Yields can a) :
    (if c then p else q).Yields can a := by
  rwa [if_neg hc]

theorem congr {p : Pass α} {a : α} (h : p.Yields can a) (hcan : can ↔ can') : p.Yields can' a := by
  intro s b
  rw [h s b, hcan]

protected theorem shown (v : Value) : (liftM v.shown : Pass String).Yields (v.isWritable = true) v.display := by
  refine .lift fun text => ?_
  rw [Value.shown_eq_ok_iff, eq_comm (a := text)]

end Pass.Yields

theorem valueCode_yields {ctx : Context} {levels : Int} (hlevels : ctx.settings.maxResolveDepth.most = .ok levels)
    (v : Value) : (valueCode ctx v).Yields (v.isWritable = true) (Literal.code levels v ctx.agent.lookup) := by
  intro s code
  constructor
  · rintro ⟨s', h⟩
    obtain ⟨n, hn, rfl⟩ := valueCode_eq h
    obtain rfl := Except.ok.inj (hlevels.symm.trans hn)
    obtain ⟨u, t, hcheck, -⟩ := runs_bind.mp h
    exact ⟨Value.isWritable_of_checkWritable (runs_lift.mp hcheck).1, rfl⟩
  · rintro ⟨hwritable, rfl⟩
    exact valueCode_runs hwritable hlevels s

theorem targetName_yields (given fallback what : String) :
    (targetName (.text given) fallback what).Yields True (nameOr (.text given) fallback) := by
  unfold targetName nameOr
  cases (Value.text given).identifier? with
  | some name => exact .pure name
  | none =>
    have hspelled : (Value.text given).spelled = .ok (Value.text given).literal := rfl
    have hlift : (liftM (Value.text given).spelled : Pass String).Yields True (Value.text given).literal :=
      .lift fun text => by rw [hspelled, Except.ok.injEq, eq_comm, true_and]
    refine .congr (.bind hlift (.bind (.modify _) (.pure fallback))) ?_
    simp

/-! ## Arguments -/

/-- The name of the argument that an option becomes, if it can be written. -/
def argumentName? (key : Value) : Option String :=
  if isIdentifier (Text.toSnake key.display) then some (Text.toSnake key.display) else none

/-- The argument that an option becomes. -/
def optionArgument? (levels : Int) (lookup : List Char → List Char) (option : Value × Value) : Option Argument :=
  (argumentName? option.1).map fun name => ⟨some name, Literal.code levels option.2 lookup⟩

theorem optionArgument?_eq_some {levels : Int} {lookup : List Char → List Char} {key v : Value} {name : String}
    (h : argumentName? key = some name) :
    optionArgument? levels lookup (key, v) = some ⟨some name, Literal.code levels v lookup⟩ := by
  rw [optionArgument?, h, Option.map_some]

/-- The option can be written as an argument, or it is left out. -/
def CanGive (option : Value × Value) : Prop :=
  option.1.isWritable = true ∧ ((argumentName? option.1).isSome = true → option.2.isWritable = true)

def Invocation.CanWrite (invocation : Invocation) : Prop :=
  invocation.prompt.isWritable = true ∧ ∀ option ∈ invocation.options, CanGive option

/-- The argument by position, if there is one. -/
def Invocation.positional (invocation : Invocation) (levels : Int) (lookup : List Char → List Char) : List Argument :=
  if invocation.prompt.isNull then [] else [⟨none, Literal.code levels invocation.prompt lookup⟩]

/-- All arguments of a call, those by name in the order of the options. -/
def Invocation.given (invocation : Invocation) (levels : Int) (lookup : List Char → List Char) : List Argument :=
  invocation.positional levels lookup ++ invocation.options.filterMap (optionArgument? levels lookup)

/-- The statement that makes the call of an action. -/
def callStatement (ctx : Context) (action : Action) (arguments : List Argument) : Statement :=
  let call := ctx.agent.call (ctx.agent.method action.keyword) (arguments.map Argument.text)
  match action.resultName with
  | none => .evaluate call
  | some given => .assign (nameOr (.text given) "result") call

section Yields

variable {ctx : Context} {levels : Int} (hlevels : ctx.settings.maxResolveDepth.most = .ok levels)

include hlevels

theorem namedArguments_yields (options : Fields) :
    (namedArguments ctx options).Yields (∀ option ∈ options, CanGive option)
      (options.filterMap (optionArgument? levels ctx.agent.lookup)) := by
  induction options with
  | nil => exact (Yields.pure []).congr (by simp)
  | cons option rest ih =>
    obtain ⟨key, v⟩ := option
    rw [namedArguments]
    by_cases hname : isIdentifier (Text.toSnake key.display) = true
    · have hgiven : argumentName? key = some (Text.toSnake key.display) := if_pos hname
      rw [List.filterMap_cons_some (optionArgument?_eq_some hgiven)]
      refine .congr (.bind (.shown key) (.if_pos hname (.bind (valueCode_yields hlevels v) (.bind ih (.pure _))))) ?_
      simp [CanGive, hgiven, and_assoc]
    · have hnone : argumentName? key = none := if_neg hname
      have hleft : optionArgument? levels ctx.agent.lookup (key, v) = none := by
        rw [optionArgument?, hnone, Option.map_none]
      rw [List.filterMap_cons_none hleft]
      refine .congr (.bind (.shown key) (.if_neg hname (.bind (.modify _) ih))) ?_
      simp [CanGive, hnone]

theorem arguments_yields (invocation : Invocation) :
    (arguments ctx invocation).Yields invocation.CanWrite (invocation.given levels ctx.agent.lookup) := by
  have hnamed := namedArguments_yields hlevels invocation.options
  unfold arguments Invocation.given Invocation.positional
  by_cases hnull : invocation.prompt.isNull = true
  · have hwritable : invocation.prompt.isWritable = true := by
      rw [Value.eq_null_of_isNull hnull]
      simp [Value.isWritable]
    rw [if_pos hnull, if_pos hnull]
    exact hnamed.congr (by simp [Invocation.CanWrite, hwritable])
  · rw [if_neg hnull, if_neg hnull]
    refine .congr (.bind (valueCode_yields hlevels _) (.bind hnamed (.pure _))) ?_
    simp [Invocation.CanWrite]

theorem actionBlock_yields {step : Step} {action : Action} (hread : Action.read? step = some action)
    (hsleep : action.keyword ≠ "sleep") : (actionBlock ctx step).Yields (Invocation.ofAction action).CanWrite
      [.line (callStatement ctx action ((Invocation.ofAction action).given levels ctx.agent.lookup))] := by
  have hawake : (action.keyword == "sleep") = false := by simpa using hsleep
  have harguments := arguments_yields hlevels (Invocation.ofAction action)
  unfold actionBlock callStatement
  simp only [hread, hawake, Bool.false_eq_true, if_false]
  cases action.resultName with
  | none => exact .congr (.bind harguments (.pure _)) (iff_of_eq (and_true _))
  | some given =>
    refine .congr (.bind harguments (.bind (targetName_yields given _ _) (.bind (.modify _) (.pure _)))) ?_
    simp

end Yields

/-! ## Names of arguments -/

theorem newline_not_mem_of_isLegalName {name : String} (h : isLegalName name = true) : '\n' ∉ name.toList := by
  obtain ⟨hform, -⟩ := Bool.and_eq_true_iff.mp h
  intro hmem
  cases hname : name.toList with
  | nil => simp [hname] at hmem
  | cons c cs =>
    rw [hname] at hform hmem
    obtain ⟨hstart, hall⟩ := Bool.and_eq_true_iff.mp hform
    rcases List.mem_cons.mp hmem with rfl | hmem
    · exact absurd hstart (by decide)
    · exact absurd (List.all_eq_true.mp hall _ hmem) (by decide)

/-- A name that passes the test is legal unless a line feed ends it. -/
theorem isLegalName_of_isIdentifier {name : String} (h : isIdentifier name = true) (hline : '\n' ∉ name.toList) :
    isLegalName name = true := by
  rcases isIdentifier_iff.mp h with hlegal | ⟨front, rfl, -⟩
  · exact hlegal
  · exact absurd (by simp) hline

theorem isIdentifier_of_argumentName? {key : Value} {name : String} (h : argumentName? key = some name) :
    isIdentifier name = true := by
  unfold argumentName? at h
  split_ifs at h with hname
  exact Option.some.inj h ▸ hname

namespace Invocation

variable (invocation : Invocation) (levels : Int) (lookup : List Char → List Char)

theorem isSome_name_of_mem_named {options : Fields} {argument : Argument}
    (h : argument ∈ options.filterMap (optionArgument? levels lookup)) : argument.name.isSome = true := by
  obtain ⟨option, -, hoption⟩ := List.mem_filterMap.mp h
  obtain ⟨name, -, rfl⟩ := Option.map_eq_some_iff.mp hoption
  rfl

/-- All arguments but the first one are given by name. -/
theorem isSome_name_of_mem_tail {argument : Argument} (h : argument ∈ (invocation.given levels lookup).tail) :
    argument.name.isSome = true := by
  unfold given positional at h
  split_ifs at h
  · exact isSome_name_of_mem_named levels lookup (List.mem_of_mem_tail h)
  · exact isSome_name_of_mem_named levels lookup h

/-- The names of the arguments are those of the options, in their order. -/
theorem names_eq : (invocation.given levels lookup).filterMap Argument.name =
    invocation.options.filterMap fun option => argumentName? option.1 := by
  have hpositional : (invocation.positional levels lookup).filterMap Argument.name = [] := by
    unfold positional
    split_ifs <;> rfl
  rw [given, List.filterMap_append, hpositional, List.nil_append, List.filterMap_filterMap]
  refine List.filterMap_congr fun option _ => ?_
  cases h : argumentName? option.1 <;> simp [optionArgument?, h]

/-- The options of an action are kept, also where its prompt is a mere direction. -/
theorem mem_options_ofAction {action : Action} {option : Value × Value} (h : option ∈ action.options) :
    option ∈ (ofAction action).options := by
  unfold ofAction
  split
  · split_ifs
    · dsimp only
      split_ifs
      · exact h
      · exact List.mem_append_left _ h
    · exact h
  · exact h

end Invocation

/-- An action other than a pause is one call, the same in every scope. At most its first argument is given by
position, and every option whose name passes the test is an argument. The names of its arguments are legal and differ
from one another exactly if no two options have the same name in snake case and no such name ends in a line feed. -/
theorem arguments_of_action {ctx : Context} {step : Step} {action : Action} {levels : Int}
    (hread : Action.read? step = some action) (hsleep : action.keyword ≠ "sleep")
    (hlevels : ctx.settings.maxResolveDepth.most = .ok levels) :
    ∃ given : List Argument,
      (arguments ctx (Invocation.ofAction action)).Yields (Invocation.ofAction action).CanWrite given ∧
      (actionBlock ctx step).Yields (Invocation.ofAction action).CanWrite [.line (callStatement ctx action given)] ∧
      (∀ argument ∈ given.tail, argument.name.isSome = true) ∧
      (∀ key v name, (key, v) ∈ action.options → argumentName? key = some name →
        ⟨some name, Literal.code levels v ctx.agent.lookup⟩ ∈ given) ∧
      (((given.filterMap Argument.name).Nodup ∧
          ∀ name ∈ given.filterMap Argument.name, isLegalName name = true) ↔
        ((Invocation.ofAction action).options.Pairwise fun a b =>
          ∀ name, argumentName? a.1 = some name → argumentName? b.1 ≠ some name) ∧
        ∀ key v name, (key, v) ∈ (Invocation.ofAction action).options → argumentName? key = some name →
          '\n' ∉ name.toList) := by
  refine ⟨_, arguments_yields hlevels _, actionBlock_yields hlevels hread hsleep,
    fun _ => Invocation.isSome_name_of_mem_tail _ levels ctx.agent.lookup, ?_, ?_⟩
  · intro key v name hmem hname
    refine List.mem_append_right _ (List.mem_filterMap.mpr ⟨(key, v), Invocation.mem_options_ofAction hmem, ?_⟩)
    exact optionArgument?_eq_some hname
  · rw [Invocation.names_eq, List.Nodup, List.pairwise_filterMap]
    refine and_congr ?_ ?_
    · refine List.Pairwise.iff fun a b => forall₂_congr fun name _ => ?_
      constructor
      · exact fun h hb => h name hb rfl
      · rintro h _ hb rfl
        exact h hb
    · constructor
      · intro h key v name hmem hname
        exact newline_not_mem_of_isLegalName (h name (List.mem_filterMap.mpr ⟨(key, v), hmem, hname⟩))
      · intro h name hmem
        obtain ⟨⟨key, v⟩, hmem, hname⟩ := List.mem_filterMap.mp hmem
        exact isLegalName_of_isIdentifier (isIdentifier_of_argumentName? hname) (h key v name hmem hname)

/-- An action in nested form that has an option beside it, and one whose name cannot be written. -/
def inputStep : Step :=
  [(.text "aiInput", .map [(.text "locate", .text "Search box"), (.text "autoDismissKeyboard", .bool false)]),
    (.text "value", .text "$\x7bquery\x7d"), (.text "two words", .int 1)]

theorem inputStep_arguments :
    Action.read? inputStep = some (Action.ofKeyword inputStep "aiInput") ∧
      ∃ given : List Argument,
        (actionBlock {} inputStep).Yields (Invocation.ofAction (Action.ofKeyword inputStep "aiInput")).CanWrite
          [.line (callStatement {} (Action.ofKeyword inputStep "aiInput") given)] ∧
        ⟨some "auto_dismiss_keyboard", "False"⟩ ∈ given ∧
        (given.filterMap Argument.name).Nodup ∧
        ∀ name ∈ given.filterMap Argument.name, isLegalName name = true := by
  have hread : Action.read? inputStep = some (Action.ofKeyword inputStep "aiInput") := rfl
  have hlevels : ({} : Context).settings.maxResolveDepth.most = .ok 10 := rfl
  have hoptions : (Action.ofKeyword inputStep "aiInput").options =
      [(.text "value", .text "$\x7bquery\x7d"), (.text "two words", .int 1),
        (.text "autoDismissKeyboard", .bool false)] := rfl
  have hvalue : argumentName? (.text "value") = some "value" := by decide +kernel
  have hwords : argumentName? (.text "two words") = none := by decide +kernel
  have hdismiss : argumentName? (.text "autoDismissKeyboard") = some "auto_dismiss_keyboard" := by decide +kernel
  obtain ⟨given, -, hyields, -, hall, hlegal⟩ := arguments_of_action hread (by decide) hlevels
  refine ⟨hread, given, hyields, ?_, hlegal.mpr ?_⟩
  · have hmem : (.text "autoDismissKeyboard", .bool false) ∈ (Action.ofKeyword inputStep "aiInput").options := by
      simp [hoptions]
    exact hall _ _ _ hmem hdismiss
  · have hinvoked : (Invocation.ofAction (Action.ofKeyword inputStep "aiInput")).options =
        (Action.ofKeyword inputStep "aiInput").options := rfl
    rw [hinvoked, hoptions]
    constructor
    · simp [hvalue, hwords, hdismiss]
    · simp only [List.mem_cons, List.not_mem_nil, or_false, Prod.mk.injEq]
      rintro key v name (⟨rfl, rfl⟩ | ⟨rfl, rfl⟩ | ⟨rfl, rfl⟩) hname
      · obtain rfl := Option.some.inj (hvalue.symm.trans hname)
        decide
      · cases hwords.symm.trans hname
      · obtain rfl := Option.some.inj (hdismiss.symm.trans hname)
        decide

/-- Two options that are one in snake case are two arguments of one name, and a line feed stays in a name. -/
theorem argument_repeated :
    ((stepLines {} (fun _ => pure []) 1 [(.text "aiTap", .text "x"), (.text "deepThink", .bool true),
        (.text "deep_think", .bool false)]).run {}).toOption.map (·.1) =
      some ["    await agent.ai_tap('x', deep_think=True, deep_think=False)"] ∧
    ((stepLines {} (fun _ => pure []) 1 [(.text "aiTap", .text "x"), (.text "xpath\n", .null)]).run {}).toOption.map
        (·.1) =
      some ["    await agent.ai_tap('x', xpath\n=None)"] := by
  constructor
  · decide +kernel
  · decide +kernel

end FlowScript.Program
