import FlowScript.Proofs.Layout
import FlowScript.Proofs.MergedOutputs
import Mathlib.Data.List.TakeWhile

/-!
# Legal names

A program is legal only if the names it binds are. Names that a step gives are tested before they are
used, and a fixed name stands for one that fails the test; the test tolerates a line feed at the end. The
names that branches of a parallel group share with what is around them come from the walk, which
does not test them. The main statement says exactly which documents have only legal names in their
programs.
-/
namespace FlowScript

open Construct

/-! ## The form of names -/

/-- A letter or underscore of the basic alphabet, then letters, digits and underscores. -/
def hasNameForm : List Char → Bool
  | [] => false
  | c :: cs => Text.isNameStart c && cs.all Text.isNameChar

/-- Whether a text is a name of a variable: it has the form and is not reserved. -/
def isLegalName (name : String) : Bool := hasNameForm name.toList && !isKeyword name

/-- What follows the longest run of name characters is the end exactly if nothing else follows but one
line feed. -/
theorem atEnd_dropWhile_iff {cs : List Char} : atEnd (cs.dropWhile Text.isNameChar) = true ↔
    cs.all Text.isNameChar = true ∨ ∃ front, cs = front ++ ['\n'] ∧ front.all Text.isNameChar = true := by
  have hfront : (cs.takeWhile Text.isNameChar).all Text.isNameChar = true := List.all_takeWhile
  constructor
  · intro h
    have hsplit := List.takeWhile_append_dropWhile (p := Text.isNameChar) (l := cs)
    cases hrest : cs.dropWhile Text.isNameChar with
    | nil =>
      rw [hrest, List.append_nil] at hsplit
      exact .inl (hsplit ▸ hfront)
    | cons d rest =>
      rw [hrest] at h hsplit
      cases rest with
      | nil =>
        obtain rfl : d = '\n' := by simpa [atEnd] using h
        exact .inr ⟨_, hsplit.symm, hfront⟩
      | cons e rest => simp [atEnd] at h
  · rintro (h | ⟨front, rfl, h⟩)
    · rw [List.dropWhile_eq_nil_iff.mpr (List.all_eq_true.mp h), atEnd]
    · rw [List.dropWhile_append_of_pos (List.all_eq_true.mp h)]
      decide

theorem isNamed_cons {c : Char} {cs : List Char} : isNamed (c :: cs) =
    (Text.isNameStart c && atEnd (cs.dropWhile Text.isNameChar)) := by
  have hdrop : cs.drop (cs.takeWhile Text.isNameChar).length = cs.dropWhile Text.isNameChar := by
    have hsplit := List.takeWhile_append_dropWhile (p := Text.isNameChar) (l := cs)
    calc cs.drop (cs.takeWhile Text.isNameChar).length
        = (cs.takeWhile Text.isNameChar ++ cs.dropWhile Text.isNameChar).drop
            (cs.takeWhile Text.isNameChar).length := by rw [hsplit]
      _ = cs.dropWhile Text.isNameChar := List.drop_left
  cases hstart : Text.isNameStart c with
  | false => simp [isNamed, takeName, hstart]
  | true => simp [isNamed, takeName, hstart, hdrop]

theorem isNamed_iff {cs : List Char} : isNamed cs = true ↔
    hasNameForm cs = true ∨ ∃ front, cs = front ++ ['\n'] ∧ hasNameForm front = true := by
  cases cs with
  | nil => simp [isNamed, takeName, hasNameForm]
  | cons c rest =>
    rw [isNamed_cons, hasNameForm, Bool.and_eq_true, Bool.and_eq_true, atEnd_dropWhile_iff]
    constructor
    · rintro ⟨hstart, hall | ⟨front, rfl, hall⟩⟩
      · exact .inl ⟨hstart, hall⟩
      · exact .inr ⟨c :: front, rfl, by simp [hasNameForm, hstart, hall]⟩
    · rintro (⟨hstart, hall⟩ | ⟨front, he, hform⟩)
      · exact ⟨hstart, .inl hall⟩
      · cases front with
        | nil => simp [hasNameForm] at hform
        | cons d front =>
          obtain ⟨rfl, rfl⟩ := List.cons.inj he
          rw [hasNameForm, Bool.and_eq_true] at hform
          exact ⟨hform.1, .inr ⟨front, rfl, hform.2⟩⟩

/-- Reserved words are made of letters alone. -/
theorem all_isAlpha_of_isKeyword {name : String} (h : isKeyword name = true) :
    name.toList.all Char.isAlpha = true := by
  have hall : ∀ word ∈ keywords, word.toList.all Char.isAlpha = true := by decide
  exact hall name (List.contains_iff_mem.mp h)

/-- The test of names lets a name pass, and a text in the form of one with a line feed behind it. -/
theorem isIdentifier_iff {name : String} : isIdentifier name = true ↔ isLegalName name = true ∨
    ∃ front, name = front ++ "\n" ∧ hasNameForm front.toList = true := by
  rw [isIdentifier, isLegalName, Bool.and_eq_true, Bool.and_eq_true, isNamed_iff, or_and_right]
  refine or_congr_right ?_
  constructor
  · rintro ⟨⟨front, he, hform⟩, -⟩
    refine ⟨String.ofList front, ?_, by simpa using hform⟩
    rw [← String.toList_inj, he]
    simp
  · rintro ⟨front, rfl, hform⟩
    refine ⟨⟨front.toList, by simp, hform⟩, ?_⟩
    -- No reserved word holds a line feed.
    rw [Bool.not_eq_true', ← Bool.not_eq_true]
    intro hkeyword
    have halpha := all_isAlpha_of_isKeyword hkeyword
    simp at halpha

theorem isIdentifier_of_isLegalName {name : String} (h : isLegalName name = true) :
    isIdentifier name = true :=
  isIdentifier_iff.mpr (.inl h)

theorem isNameChar_natText (n : Nat) : (Number.natText n).toList.all Text.isNameChar = true := by
  rw [Number.natText, String.toList_ofList, List.all_eq_true]
  intro c hc
  have hdigit : c.isDigit = true := Nat.isDigit_of_mem_toDigits (by decide) (by decide) hc
  simp [Text.isNameChar, Char.isAlphanum, hdigit]

/-- A legal name with an underscore and a number behind it is one. -/
theorem isLegalName_numbered {base : String} (h : hasNameForm base.toList = true) (n : Nat) :
    isLegalName (base ++ "_" ++ Number.natText n) = true := by
  have hunder : '_' ∈ (base ++ "_" ++ Number.natText n).toList := by simp
  rw [isLegalName, Bool.and_eq_true]
  constructor
  · cases hbase : base.toList with
    | nil => simp [hbase, hasNameForm] at h
    | cons c cs =>
      rw [hbase, hasNameForm, Bool.and_eq_true] at h
      simp only [String.toList_append, hbase, List.cons_append, hasNameForm, List.all_append, h.1, h.2,
        isNameChar_natText, Bool.and_true, Bool.true_and]
      decide
  · rw [Bool.not_eq_true', ← Bool.not_eq_true]
    intro hkeyword
    have halpha := List.all_eq_true.mp (all_isAlpha_of_isKeyword hkeyword) '_' hunder
    exact absurd halpha (by decide)

theorem isLegalName_madeUpName (i : Nat) : isLegalName (Parallel.madeUpName i) = true := by
  have hbase : "result_" = "result" ++ "_" := by decide
  rw [Parallel.madeUpName, hbase]
  exact isLegalName_numbered (by decide) i

/-! ## What names a step uses -/

namespace Step

/-- The values that a step gives for what it binds. A merging group gives the names of its branches, and not those
that are made up for branches without a name. -/
def givenResults (step : Step) : List Value :=
  if step.kind = .parallel then
    ((Parallel.read? step).filter (·.merges)).elim [] fun group => group.givenNames.map .text
  else step.boundValues.toOption.getD []

/-- The values of a step that become names in the program if they can be written. -/
def namingValues (step : Step) : List Value :=
  step.givenResults ++ step.assignedControl ++ (step.whileLoop?.map (·.counterVar)).toList

/-- A step gives a name that passes the test. -/
def Gives (step : Step) (name : String) : Prop := ∃ v ∈ step.namingValues, v.identifier? = some name

/-- The walk finds a name in a branch of a step. -/
def Shares (settings : Settings) (step : Step) (name : String) : Prop :=
  step.kind = .parallel ∧ ∃ parallel levels, Parallel.read? step = some parallel ∧
    settings.walkLevels = .ok levels ∧ ∃ branch ∈ parallel.branches,
      ∃ inner ∈ branch.flow.steps (fun _ => true) levels, Program.StepBinds inner name

end Step

namespace Program

open Pass

/-- How a program comes to bind a name: at the place that gives it, or because a branch of a parallel
group shares it with what is around. -/
inductive Role where
  | own
  | shared
deriving Repr, DecidableEq

/-- The names that a statement binds or declares. -/
def Statement.names : Statement → List (Role × String)
  | .hoist name => [(.shared, name)]
  | .nonlocals names => names.map fun n => (.shared, n)
  | statement => statement.targets.map fun n => (.own, n)

def Header.names (header : Header) : List (Role × String) := header.targets.map fun n => (.own, n)

mutual

/-- The names that an item binds or declares, at any depth. -/
def Item.names : Item → List (Role × String)
  | .line statement => statement.names
  | .comment _ => []
  | .blank => []
  | .block header body => header.names ++ blockNames body

def blockNames : List Item → List (Role × String)
  | [] => []
  | item :: items => item.names ++ blockNames items

end

/-- What is asked of names holds of all names of an item. -/
def Item.Named (Q : Role → String → Prop) (item : Item) : Prop := ∀ x ∈ item.names, Q x.1 x.2

/-- What is asked of names holds of all names of a block. -/
def Named (Q : Role → String → Prop) (b : Block) : Prop := ∀ x ∈ blockNames b, Q x.1 x.2

/-- What is asked of names holds of those that are not given by a document. -/
structure Fallbacks (Q : Role → String → Prop) : Prop where
  fixed : ∀ name ∈ ["result", "response", Transform.defaultOutput, "item", "index", "i", "e", "_task_error"],
    Q .own name
  counter : ∀ k, Q .own (Scope.candidate counterBase k)
  output : ∀ i, Q .own (Parallel.madeUpName i)

/-- What is asked of names holds of those that a step uses. -/
def StepNamed (Q : Role → String → Prop) (settings : Settings) (step : Step) : Prop :=
  (∀ name, step.Gives name → Q .own name) ∧ ∀ name, step.Shares settings name → Q .shared name

section Named

variable {Q : Role → String → Prop} {a b : Block}

@[simp] theorem named_nil : Named Q [] := List.forall_mem_nil _

@[simp] theorem named_cons {item : Item} {items : Block} :
    Named Q (item :: items) ↔ item.Named Q ∧ Named Q items := List.forall_mem_append

@[simp] theorem named_append : Named Q (a ++ b) ↔ Named Q a ∧ Named Q b := by
  induction a with
  | nil => simp
  | cons item items ih => rw [List.cons_append, named_cons, named_cons, ih, and_assoc]

namespace Item

@[simp] theorem named_block {header : Header} : (block header b).Named Q ↔
    (∀ name ∈ header.targets, Q .own name) ∧ Program.Named Q b :=
  List.forall_mem_append.trans (and_congr_left' List.forall_mem_map)

@[simp] theorem named_comment (text : String) : (comment text).Named Q := List.forall_mem_nil _

@[simp] theorem named_blank : blank.Named Q := List.forall_mem_nil _

@[simp] theorem named_assign {target value : String} :
    (line (.assign target value)).Named Q ↔ Q .own target :=
  List.forall_mem_singleton

@[simp] theorem named_start {counter : String} : (line (.start counter)).Named Q ↔ Q .own counter :=
  List.forall_mem_singleton

@[simp] theorem named_increment {counter : String} :
    (line (.increment counter)).Named Q ↔ Q .own counter :=
  List.forall_mem_singleton

@[simp] theorem named_join {outputs functions : List String} :
    (line (.join outputs functions)).Named Q ↔ ∀ name ∈ outputs, Q .own name :=
  List.forall_mem_map

@[simp] theorem named_hoist {name : String} : (line (.hoist name)).Named Q ↔ Q .shared name :=
  List.forall_mem_singleton

@[simp] theorem named_nonlocals {shared : List String} :
    (line (.nonlocals shared)).Named Q ↔ ∀ name ∈ shared, Q .shared name :=
  List.forall_mem_map

@[simp] theorem named_returns (value : String) : (line (.returns value)).Named Q :=
  List.forall_mem_nil _

@[simp] theorem named_evaluate (code : String) : (line (.evaluate code)).Named Q :=
  List.forall_mem_nil _

@[simp] theorem named_pass : (line .pass).Named Q :=
  List.forall_mem_nil _

end Item

@[simp] theorem named_filled : Named Q (filled b) ↔ Named Q b := by
  cases b <;> simp [filled]

theorem named_nameOr {v : Value} {fallback : String} (h : Q .own fallback) :
    Q .own (nameOr v fallback) ↔ ∀ name, v.identifier? = some name → Q .own name := by
  unfold nameOr
  cases hv : v.identifier? with
  | none => simpa using h
  | some name => simp

end Named

/-! ## Steps -/

section Steps

variable {Q : Role → String → Prop} {ctx : Context} {nested : Flow → Pass Block} {step : Step}
  {settings : Settings} {values : List Value} {N : Flow → Prop} {b : Block} {s s' : State}

theorem stepNamed_iff (hk : step.kind ≠ .parallel) (hv : step.namingValues = values) :
    StepNamed Q settings step ↔ ∀ v ∈ values, ∀ name, v.identifier? = some name → Q .own name := by
  subst hv
  constructor
  · intro h v hmem name hname
    exact h.1 name ⟨v, hmem, hname⟩
  · intro h
    refine ⟨?_, fun name hshares => absurd hshares.1 hk⟩
    rintro name ⟨v, hmem, hname⟩
    exact h v hmem name hname

theorem namingValues_eq (hk : step.kind ≠ .loop) (hg : step.kind ≠ .guarded) :
    step.namingValues = step.givenResults := by
  have hwhile : step.whileLoop? = none := whileLoop?_of_kind hk
  have hcontrol : step.assignedControl = [] := by
    unfold Step.assignedControl Step.controlValues
    split_ifs
    · rfl
    · split <;> first | contradiction | rfl
  rw [Step.namingValues, hcontrol, hwhile, Option.map_none, Option.toList_none, List.append_nil, List.append_nil]

theorem givenResults_of_bound (hk : step.kind ≠ .parallel) (hv : step.boundValues = .ok values) :
    step.givenResults = values := by
  rw [Step.givenResults, if_neg hk, hv]
  rfl

theorem namingValues_of_leaf (hk : step.kind ≠ .loop) (hg : step.kind ≠ .guarded) (hp : step.kind ≠ .parallel)
    (hv : step.boundValues = .ok values) : step.namingValues = values := by
  rw [namingValues_eq hk hg, givenResults_of_bound hp hv]

/-- A step that owns no flow has the names that its values spell. -/
theorem named_of_leaf (hk : step.kind ∉ [.logic, .loop, .guarded, .parallel])
    (hv : step.boundValues = .ok values)
    (hb : Named Q b ↔ ∀ v ∈ values, ∀ name, v.identifier? = some name → Q .own name) :
    Named Q b ↔ StepNamed Q settings step ∧ ∀ flow ∈ constructFlows step, N flow := by
  simp only [List.mem_cons, List.not_mem_nil, or_false, not_or] at hk
  obtain ⟨hlogic, hloop, hguard, hgroup⟩ := hk
  have hflows : constructFlows step = [] := by
    unfold constructFlows
    split <;> first | contradiction | rfl
  rw [hb, stepNamed_iff hgroup (namingValues_of_leaf hloop hguard hgroup hv), hflows]
  simp

theorem named_result {v : Value} {fallback : String} (h : Q .own fallback) (code : String) :
    Named Q [.line (.assign (nameOr v fallback) code)] ↔
      ∀ name, v.identifier? = some name → Q .own name := by
  rw [← named_nameOr h]
  simp

theorem bindingsBlock_named {bindings : Fields} (h : (bindingsBlock ctx bindings).Runs s b s') :
    Named Q b ↔ ∀ name ∈ bindings.filterMap (·.1.identifier?), Q .own name := by
  unfold bindingsBlock at h
  induction bindings generalizing s b with
  | nil =>
    obtain ⟨rfl, -⟩ := runs_each_nil.mp h
    simp
  | cons entry rest ih =>
    obtain ⟨first, t, others, hfirst, hrest, rfl⟩ := runs_each_cons.mp h
    rw [named_append, ih hrest]
    obtain ⟨name, code, hname, rfl, -⟩ | ⟨text, hname, rfl, -⟩ := bindingBlock_spec hfirst
    · simp [hname]
    · simp [hname]

theorem importBlock_named {imported : Import} {path : String}
    (h : (importBlock ctx imported path).Runs s b s') :
    Named Q b ↔ ∀ name, boundAs imported.boundName = some name → Q .own name := by
  obtain ⟨name, code, hname, rfl, -⟩ | ⟨hname, -, ⟨-, rest, rfl⟩ | ⟨-, n, -, rfl⟩⟩ := importBlock_spec h
  all_goals simp [hname]

theorem named_comments (texts : List String) : Named Q (texts.map .comment) := by
  induction texts with
  | nil => simp
  | cons text rest ih => simpa using ih

theorem named_assigns (target code : String) (codes : List String) :
    Named Q ((code :: codes).map fun c => .line (.assign target c)) ↔ Q .own target := by
  induction codes generalizing code with
  | nil => simp
  | cons next rest ih =>
    rw [List.map_cons, named_cons, ih]
    simp

theorem named_counterOf (hfall : Fallbacks Q) (scope : Scope) (loop : Loop) :
    Q .own (counterOf scope loop) ↔ ∀ name, loop.counterVar.identifier? = some name → Q .own name := by
  obtain ⟨-, k, hk⟩ := Scope.freshName_spec scope counterBase
  exact named_nameOr (hk ▸ hfall.counter k)

/-- The names that the walk finds in a flow are those that its steps bind. -/
theorem mem_foundNames_iff {flow : Flow} {levels : Nat} {names : List String} {n : String}
    (h : flow.boundNames false levels = .ok names) :
    n ∈ names ↔ ∃ step ∈ flow.steps (fun _ => true) levels, StepBinds step n := by
  constructor
  · intro hn
    unfold Flow.boundNames at h
    obtain ⟨found, hfound, h⟩ := bind_eq_ok.mp h
    obtain rfl := Except.ok.inj h
    obtain ⟨own, hown, hn⟩ := List.mem_flatten.mp (mem_distinctFrom.mp hn).1
    obtain ⟨visit, hvisit, hnames⟩ := exists_of_result_mem hfound hown
    refine ⟨visit.step, ?_, own, hnames, hn⟩
    rw [← Flow.visits_walk _ _ _ ""]
    exact List.mem_map.mpr ⟨visit, hvisit, rfl⟩
  · rintro ⟨step, hstep, hbinds⟩
    exact mem_boundNames h hstep hbinds

theorem shares_iff {parallel : Parallel} {named : List NamedBranch} {name : String}
    (hk : step.kind = .parallel) (hr : Parallel.read? step = some parallel)
    (hnames : nameBranches ctx parallel = .ok named) :
    step.Shares ctx.settings name ↔ ∃ branch ∈ named, name ∈ branch.names := by
  obtain ⟨hbranches, hfound⟩ := nameBranches_spec hnames
  constructor
  · rintro ⟨-, read, levels, hread, hlevels, branch, hbranch, inner, hinner, hbinds⟩
    obtain rfl := Option.some.inj (hr.symm.trans hread)
    rw [← hbranches] at hbranch
    obtain ⟨given, hgiven, rfl⟩ := List.mem_map.mp hbranch
    obtain ⟨levels', hlevels', hbound⟩ := hfound given hgiven
    obtain rfl := Except.ok.inj (hlevels.symm.trans hlevels')
    exact ⟨given, hgiven, (mem_foundNames_iff hbound).mpr ⟨inner, hinner, hbinds⟩⟩
  · rintro ⟨given, hgiven, hname⟩
    obtain ⟨levels, hlevels, hbound⟩ := hfound given hgiven
    obtain ⟨inner, hinner, hbinds⟩ := (mem_foundNames_iff hbound).mp hname
    refine ⟨hk, parallel, levels, hr, hlevels, given.branch, ?_, inner, hinner, hbinds⟩
    rw [← hbranches]
    exact List.mem_map.mpr ⟨given, hgiven, rfl⟩

theorem gives_iff_of_parallel {parallel : Parallel} {name : String} (hk : step.kind = .parallel)
    (hr : Parallel.read? step = some parallel) :
    step.Gives name ↔ parallel.merges = true ∧ name ∈ parallel.givenNames := by
  have hvalues : step.namingValues = if parallel.merges then parallel.givenNames.map .text else [] := by
    rw [namingValues_eq (by simp [hk]) (by simp [hk]), Step.givenResults, if_pos hk, hr]
    cases hmerges : parallel.merges <;> simp [Option.filter, hmerges]
  rw [Step.Gives, hvalues]
  constructor
  · rintro ⟨v, hv, hname⟩
    split_ifs at hv with hmerges
    · obtain ⟨given, hgiven, rfl⟩ := List.mem_map.mp hv
      obtain ⟨htext, -⟩ := identifier?_eq_some hname
      exact ⟨hmerges, Value.text.inj htext ▸ hgiven⟩
    · cases hv
  · rintro ⟨hmerges, hname⟩
    obtain ⟨branch, -, hgiven⟩ := List.mem_filterMap.mp hname
    refine ⟨.text name, ?_, ?_⟩
    · rw [if_pos hmerges]
      exact List.mem_map_of_mem hname
    · rw [Value.identifier?, if_pos (Option.filter_eq_some_iff.mp hgiven).2]

/-- The outputs of a group are the names that its branches give, and made up ones. -/
theorem named_outputs (hmade : ∀ i, Q .own (Parallel.madeUpName i)) (parallel : Parallel) :
    (∀ name ∈ parallel.outputs, Q .own name) ↔
      ∀ name, parallel.merges = true ∧ name ∈ parallel.givenNames → Q .own name := by
  constructor
  · rintro h name ⟨hmerges, hname⟩
    obtain ⟨branch, hbranch, hgiven⟩ := List.mem_filterMap.mp hname
    obtain ⟨i, hi⟩ := List.mem_iff_getElem?.mp hbranch
    refine h name (List.mem_of_getElem? (i := i) ?_)
    rw [Parallel.getElem?_outputs hmerges, hi, Option.map_some, Parallel.outputName_eq, hgiven, Option.getD_some]
  · intro h name hname
    unfold Parallel.outputs at hname
    split_ifs at hname with hmerges
    · obtain ⟨⟨branch, i⟩, hbranch, rfl⟩ := List.mem_map.mp hname
      dsimp only
      rw [Parallel.outputName_eq]
      cases hgiven : branch.givenName? with
      | none => exact hmade i
      | some given =>
        exact h given ⟨hmerges, List.mem_filterMap.mpr ⟨branch, List.fst_mem_of_mem_zipIdx hbranch, hgiven⟩⟩
    · cases hname

theorem named_branchHeader (names : List String) :
    Named Q (branchHeader names) ↔ ∀ name ∈ names, Q .shared name := by
  cases names <;> simp [branchHeader]

theorem named_branchEnd {merges : Bool} {flow : Flow} {names : List String} {body : Block}
    (h : (branchEnd merges flow names body).Runs s b s') : Named Q b := by
  unfold branchEnd at h
  split_ifs at h
  · simp only [runs_bind, runs_pure] at h
    obtain ⟨_, _, -, rfl, -⟩ := h
    simp
  · obtain ⟨rfl, -⟩ := runs_pure.mp h
    simp
  · obtain ⟨rfl, -⟩ := runs_pure.mp h
    simp

theorem BranchesRun.named {merges : Bool} {group : Nat} {branches : List NamedBranch}
    (hnested : ∀ {flow s b s'}, (nested flow).Runs s b s' → (Named Q b ↔ N flow))
    (h : BranchesRun nested merges group branches s b s') :
    Named Q b ↔ ∀ branch ∈ branches, (∀ name ∈ branch.names, Q .shared name) ∧ N branch.branch.flow := by
  induction h with
  | nil => simp
  | cons hn he _ ih =>
    rw [named_cons, named_cons, ih, Item.named_block, named_append, named_append, named_branchHeader,
      hnested hn, List.forall_mem_cons]
    simp [Header.targets, named_branchEnd he]

theorem named_hoisted (names : List String) :
    Named Q (names.map fun n => .line (.hoist n)) ↔ ∀ name ∈ names, Q .shared name := by
  induction names with
  | nil => simp
  | cons name rest ih =>
    rw [List.map_cons, named_cons, ih]
    simp

theorem named_afterHoisted (hoisted : Block) : Named Q (afterHoisted hoisted) := by
  unfold afterHoisted
  split_ifs <;> simp

theorem namingValues_of_loop {loop : Loop} (hk : step.kind = .loop) (hr : Loop.read? step = some loop)
    (hl : loop.kind ≠ some "while") : step.namingValues = Step.loopControl loop := by
  obtain ⟨hcontrol, hwhile⟩ := assignedControl_of_loop hk hr hl
  rw [Step.namingValues, hcontrol, hwhile]
  simp [Step.givenResults, Step.boundValues, hk, Except.toOption]

theorem namingValues_of_while {loop : Loop} (hk : step.kind = .loop) (hr : Loop.read? step = some loop)
    (hl : loop.kind = some "while") : step.namingValues = [loop.counterVar] := by
  have hwhile : step.whileLoop? = some loop := by simp [Step.whileLoop?, hk, hr, Option.filter, hl]
  simp [Step.namingValues, Step.givenResults, Step.assignedControl, hwhile, Step.boundValues, hk, Except.toOption]

theorem namingValues_of_guard (hk : step.kind = .guarded) :
    step.namingValues = if (Guard.read step).handler.isSome then [(Guard.read step).errorName] else [] := by
  have hwhile : step.whileLoop? = none := whileLoop?_of_kind (by simp [hk])
  simp [Step.namingValues, Step.givenResults, Step.assignedControl, hwhile, Step.controlValues, Step.boundValues, hk,
    Except.toOption]

theorem identifier?_of_isNull {v : Value} (h : v.isNull = true) : v.identifier? = none := by
  cases v <;> simp_all [Value.isNull, Value.identifier?]

/-- The walk adds the fixed index of a counted loop where none is given. -/
theorem named_loopControl_of_repeat {loop : Loop} (hl : loop.kind = some "repeat") (hcount : Q .own "i") :
    (∀ v ∈ Step.loopControl loop, ∀ name, v.identifier? = some name → Q .own name) ↔
      ∀ name, loop.indexVar.identifier? = some name → Q .own name := by
  have hi : ∀ name, (Value.text "i").identifier? = some name → Q .own name := by
    intro name hname
    obtain ⟨htext, -⟩ := identifier?_eq_some hname
    exact Value.text.inj htext ▸ hcount
  cases hnull : loop.indexVar.isNull with
  | true => simpa [Step.loopControl, hl, hnull] using fun _ => hi
  | false => simp [Step.loopControl, hl, hnull]

theorem HandlerRun.named {guard : Guard} (hfall : Fallbacks Q)
    (hnested : ∀ {flow s b s'}, (nested flow).Runs s b s' → (Named Q b ↔ N flow))
    (h : HandlerRun nested guard s b s') : Named Q b ↔
      (guard.handler.isSome → ∀ name, guard.errorName.identifier? = some name → Q .own name) ∧
        ∀ flow ∈ guard.handler, N flow := by
  cases h with
  | handled hf hb hn => simp [hf, Header.targets, named_nameOr (hfall.fixed "e" (by simp)), hnested hn]
  | absent hf => simp [hf]
  | ignored hf => simp [hf, Header.targets]

theorem CleanupRun.named {guard : Guard}
    (hnested : ∀ {flow s b s'}, (nested flow).Runs s b s' → (Named Q b ↔ N flow))
    (h : CleanupRun nested guard s b s') : Named Q b ↔ ∀ flow ∈ guard.cleanup, N flow := by
  cases h with
  | cleaned hf hn => simp [hf, Header.targets, hnested hn]
  | absent hf => simp [hf]

theorem stepNamed_of_guard (hk : step.kind = .guarded) : StepNamed Q settings step ↔
    ((Guard.read step).handler.isSome →
      ∀ name, (Guard.read step).errorName.identifier? = some name → Q .own name) := by
  rw [stepNamed_iff (by simp [hk]) (namingValues_of_guard hk)]
  split_ifs with hsome <;> simp [hsome]

/-- The walk finds the names that branches share, and the outputs are given or made up. -/
theorem stepNamed_of_group {parallel : Parallel} {named : List NamedBranch}
    (hmade : ∀ i, Q .own (Parallel.madeUpName i)) (hk : step.kind = .parallel)
    (hr : Parallel.read? step = some parallel) (hnames : nameBranches ctx parallel = .ok named) :
    StepNamed Q ctx.settings step ↔ (∀ name ∈ parallel.outputs, Q .own name) ∧
      ∀ branch ∈ named, ∀ name ∈ branch.names, Q .shared name := by
  simp only [StepNamed, named_outputs hmade, gives_iff_of_parallel hk hr, shares_iff hk hr hnames]
  refine and_congr_right fun _ => ?_
  constructor
  · intro h branch hbranch name hname
    exact h name ⟨branch, hbranch, hname⟩
  · rintro h name ⟨branch, hbranch, hname⟩
    exact h branch hbranch name hname

/-- A step that owns no flow has its fallback from a short list. -/
theorem StepRun.named_of_leaf (hfixed : ∀ name ∈ ["result", "response", Transform.defaultOutput], Q .own name)
    (hk : step.kind ∉ [.logic, .loop, .guarded, .parallel])
    (h : StepRun nested ctx step s b s') (hskip : step.isSkipped = false) :
    Named Q b ↔ StepNamed Q ctx.settings step ∧ ∀ flow ∈ constructFlows step, N flow := by
  cases h with
  | skipped hs _ => rw [hs] at hskip; cases hskip
  | @assignments bindings _ _ _ hkind hc hb run =>
    have hvalues : step.boundValues = .ok (bindings.map (·.1)) := by
      simp only [Step.boundValues, hkind, hb, Option.getD_some]
    refine Program.named_of_leaf hk hvalues ?_
    rw [bindingsBlock_named run]
    simp only [List.mem_filterMap, List.forall_mem_map]
    grind
  | importing hkind hc hp run =>
    have hvalues : step.boundValues = .ok (Step.optionText (Import.ofStep step).boundName) := by
      simp only [Step.boundValues, hkind]
    refine Program.named_of_leaf hk hvalues ?_
    rw [importBlock_named run]
    cases hgiven : (Import.ofStep step).boundName with
    | none => simp [boundAs, Step.optionText]
    | some given => simp [boundAs, Step.optionText, Value.identifier?, Option.filter]
  | @transform t texts code codes _ _ hkind hr hc hb =>
    have hvalues : step.boundValues = .ok [t.output] := by
      simp only [Step.boundValues, hkind, hr]
      rfl
    refine Program.named_of_leaf hk hvalues ?_
    rw [named_append, named_assigns, named_nameOr (hfixed _ (by simp))]
    simp [named_comments]
  | @call c code _ _ hkind hr hc hb =>
    have hvalues : step.boundValues = .ok [c.resultName] := by
      simp only [Step.boundValues, hkind, hr]
      rfl
    refine Program.named_of_leaf hk hvalues ?_
    rw [named_result (hfixed _ (by simp)), List.forall_mem_singleton]
  | use hkind =>
    have hvalues : step.boundValues = .ok [] := by simp only [Step.boundValues, hkind]
    exact Program.named_of_leaf hk hvalues (by simp)
  | @query action given code _ _ hkind hr hc hg hb =>
    have hvalues : step.boundValues = .ok [.text given] := by
      simp only [Step.boundValues, hkind, hr, Option.bind_some, hg, Step.optionText, Option.toList_some,
        List.map_cons, List.map_nil]
    refine Program.named_of_leaf hk hvalues ?_
    rw [named_result (hfixed _ (by simp)), List.forall_mem_singleton]
  | perform hkind hr hc hg hb =>
    have hvalues : step.boundValues = .ok [] := by
      simp only [Step.boundValues, hkind, hr, Option.bind_some, hg, Step.optionText, Option.toList_none,
        List.map_nil]
    exact Program.named_of_leaf hk hvalues (by simp)
  | conditional hkind | alternative hkind | forEach hkind | forIndexed hkind | bounded hkind
  | counted hkind | guarded hkind | emptyGroup hkind | group hkind => simp [hkind] at hk

/-- What is asked of names holds of the block of a step exactly if it holds of the names that the step
uses and of the blocks of its flows. -/
theorem StepRun.named (hfall : Fallbacks Q) (hnil : N [])
    (hnested : ∀ {flow s b s'}, (nested flow).Runs s b s' → (Named Q b ↔ N flow))
    (h : StepRun nested ctx step s b s') (hskip : step.isSkipped = false) :
    Named Q b ↔ StepNamed Q ctx.settings step ∧ ∀ flow ∈ constructFlows step, N flow := by
  have hitem := hfall.fixed "item" (by simp)
  have hindex := hfall.fixed "index" (by simp)
  have hcount := hfall.fixed "i" (by simp)
  by_cases hleaf : step.kind ∉ [.logic, .loop, .guarded, .parallel]
  · refine h.named_of_leaf (fun name hname => hfall.fixed name ?_) hleaf hskip
    simp only [List.mem_cons, List.not_mem_nil, or_false] at hname ⊢
    tauto
  rw [not_not] at hleaf
  cases h with
  | skipped hs _ => rw [hs] at hskip; cases hskip
  | assignments hk | importing hk | transform hk | call hk | use hk | query hk | perform hk =>
    simp [hk] at hleaf
  | conditional hk hc he hb hn =>
    have helse : ((step.get "logic").field "else").items = [] := by
      cases hv : (step.get "logic").field "else" <;> simp_all [Value.isNull, Value.items, Value.items?]
    have hvalues : step.boundValues = .ok [] := by simp only [Step.boundValues, hk]
    rw [stepNamed_iff (by simp [hk]) (namingValues_of_leaf (by simp [hk]) (by simp [hk]) (by simp [hk]) hvalues),
      constructFlows, hk]
    simp [Header.targets, hnested hn, helse, hnil]
  | alternative hk hc he hb hy hn =>
    have hvalues : step.boundValues = .ok [] := by simp only [Step.boundValues, hk]
    rw [stepNamed_iff (by simp [hk]) (namingValues_of_leaf (by simp [hk]) (by simp [hk]) (by simp [hk]) hvalues),
      constructFlows, hk]
    simp [Header.targets, hnested hy, hnested hn]
  | forEach hk hr hc hl hi hb hn =>
    rw [stepNamed_iff (by simp [hk]) (namingValues_of_loop hk hr (by simp [hl])), constructFlows, hk]
    simp [Header.targets, named_nameOr hitem, hnested hn, hr, Step.loopControl, hl,
      identifier?_of_isNull hi]
  | forIndexed hk hr hc hl hi hb hn =>
    rw [stepNamed_iff (by simp [hk]) (namingValues_of_loop hk hr (by simp [hl])), constructFlows, hk]
    simp [Header.targets, named_nameOr hitem, named_nameOr hindex, hnested hn, hr, Step.loopControl, hl,
      and_comm]
  | bounded hk hr hc hl hb hn =>
    rw [stepNamed_iff (by simp [hk]) (namingValues_of_while hk hr hl), constructFlows, hk]
    simp [Header.targets, hnested hn, hr, named_counterOf hfall, and_comm, and_left_comm]
  | counted hk hr hc hl hb hn =>
    rw [stepNamed_iff (by simp [hk]) (namingValues_of_loop hk hr (by simp [hl])), constructFlows, hk,
      named_loopControl_of_repeat hl hcount]
    simp [Header.targets, named_nameOr hcount, hnested hn, hr]
  | guarded hk hc hb hn hh hf =>
    rw [stepNamed_of_guard hk, named_cons, named_append, hh.named hfall hnested, hf.named hnested]
    have hflows : (∀ flow ∈ constructFlows step, N flow) ↔ N ((Guard.read step).body.getD []) ∧
        (∀ flow ∈ (Guard.read step).handler, N flow) ∧ ∀ flow ∈ (Guard.read step).cleanup, N flow := by
      simp [constructFlows, hk, or_imp, forall_and]
    rw [hflows]
    simp [Header.targets, hnested hn, and_assoc, and_left_comm]
  | @emptyGroup parallel _ _ _ hk hr hc he hb =>
    have hnames : nameBranches ctx parallel = .ok [] := by
      rw [nameBranches, he]
      rfl
    rw [stepNamed_of_group hfall.output hk hr hnames, constructFlows, hk]
    simp [hr, he, Parallel.outputs]
  | @group parallel named functions _ _ _ _ _ hk hr hc he hnames ho hh hf hb =>
    rw [stepNamed_of_group hfall.output hk hr hnames, constructFlows_of_named hk hr hnames, named_append, named_append,
      named_append, named_hoisted, hf.named hnested, List.forall_mem_map]
    constructor
    · rintro ⟨⟨⟨-, -⟩, hbranches⟩, hjoin⟩
      exact ⟨⟨by simpa using hjoin, fun branch hmem => (hbranches branch hmem).1⟩,
        fun branch hmem => (hbranches branch hmem).2⟩
    · rintro ⟨⟨houtputs, hshared⟩, hflows⟩
      refine ⟨⟨⟨fun name hname => ?_, named_afterHoisted _⟩, fun branch hmem =>
        ⟨hshared branch hmem, hflows branch hmem⟩⟩, by simpa using houtputs⟩
      -- What is hoisted is among the names of the branches.
      obtain ⟨branch, hmem, hname⟩ := List.mem_flatMap.mp (mem_distinctFrom.mp hname).1
      exact hshared branch hmem name hname

end Steps

/-! ## Flows and documents -/

section Flows

variable {Q : Role → String → Prop} {ctx : Context} {b : Block} {s t s' : State} {own other : Prop}

theorem flowBlock_named {levels : Nat} {flow : Flow} (hfall : Fallbacks Q)
    (h : (flowBlock ctx levels flow).Runs s b s') :
    Named Q b ↔ ∀ step ∈ flow.steps (fun step => !step.isSkipped) levels, step.isSkipped = false →
      StepNamed Q ctx.settings step := by
  induction levels generalizing flow s b s' with
  | zero =>
    obtain ⟨⟨text, rfl⟩, -⟩ := flowBlock_zero_run h
    simp [Flow.steps]
  | succ levels ih =>
    have hnil : Flow.steps (fun step => !step.isSkipped) levels [] = [] := by cases levels <;> rfl
    change (each (entryOfFlow ctx (flowBlock ctx levels)) flow).Runs s b s' at h
    induction flow generalizing s b with
    | nil =>
      obtain ⟨rfl, -⟩ := runs_each_nil.mp h
      simp [Flow.steps]
    | cons entry rest ihrest =>
      obtain ⟨first, t, others, hentry, hrest, rfl⟩ := runs_each_cons.mp h
      rw [named_append, Flow.steps_cons, List.forall_mem_append]
      refine and_congr ?_ (ihrest hrest)
      obtain ⟨step, hstep, hrun⟩ | ⟨hstep, ⟨text, rfl⟩, -⟩ := entry_run hentry
      · rw [hstep, Option.elim_some]
        cases hskip : step.isSkipped with
        | true =>
          obtain ⟨⟨text, rfl⟩, -⟩ := hrun.of_isSkipped hskip
          simp [hskip]
        | false =>
          rw [List.forall_mem_cons, hskip, if_pos Bool.not_false, nestedFlows_flatMap _ hnil hskip,
            List.forall_mem_flatMap]
          simpa using hrun.named hfall (by simp [hnil]) ih hskip
      · simp [hstep]

/-- From one state to the next steps were given to their rules, and what is asked of names holds of the
block that is left exactly if it holds of what these steps use and of what else is named. -/
def Naming (Q : Role → String → Prop) (settings : Settings) (own : Prop) (s : State) (b : Block)
    (s' : State) : Prop :=
  ∃ steps, s'.handed = s.handed ++ steps ∧
    (Named Q b ↔ own ∧ ∀ step ∈ steps, step.isSkipped = false → StepNamed Q settings step)

namespace Naming

variable {settings : Settings} {a : Block}

theorem of_handed (hs : s'.handed = s.handed) (hb : Named Q b ↔ own) : Naming Q settings own s b s' :=
  ⟨[], by simp [hs], by simp [hb]⟩

protected theorem append (ha : Naming Q settings own s a t) (hb : Naming Q settings other t b s') :
    Naming Q settings (own ∧ other) s (a ++ b) s' := by
  obtain ⟨steps, hsteps, hnamed⟩ := ha
  obtain ⟨more, hmore, hnamed'⟩ := hb
  refine ⟨steps ++ more, by rw [hmore, hsteps, List.append_assoc], ?_⟩
  rw [named_append, hnamed, hnamed', List.forall_mem_append]
  exact and_and_and_comm

theorem congr (h : Naming Q settings own s a s') (hb : Named Q b ↔ Named Q a) (ho : own ↔ other) :
    Naming Q settings other s b s' := by
  obtain ⟨steps, hsteps, hnamed⟩ := h
  exact ⟨steps, hsteps, hb.trans (hnamed.trans (and_congr_left' ho))⟩

theorem each {α : Type} {f : α → Pass Block} {xs : List α} {names : α → Prop}
    (hf : ∀ x ∈ xs, ∀ {s b s'}, (f x).Runs s b s' → Naming Q settings (names x) s b s')
    (h : (Pass.each f xs).Runs s b s') : Naming Q settings (∀ x ∈ xs, names x) s b s' := by
  induction xs generalizing s b with
  | nil =>
    obtain ⟨rfl, rfl⟩ := runs_each_nil.mp h
    exact of_handed rfl (by simp)
  | cons x rest ih =>
    obtain ⟨first, t, others, hfirst, hrest, rfl⟩ := runs_each_cons.mp h
    rw [List.forall_mem_cons]
    exact (hf x List.mem_cons_self hfirst).append
      (ih (fun y hy => hf y (List.mem_cons_of_mem _ hy)) hrest)

end Naming

theorem flowAt_naming {level : Int} {flow : Flow} (hfall : Fallbacks Q)
    (h : (flowAt ctx level flow).Runs s b s') : Naming Q ctx.settings True s b s' := by
  simp only [flowAt, runs_bind, runs_lift] at h
  obtain ⟨levels, _, ⟨-, rfl⟩, h⟩ := h
  refine ⟨_, (flowBlock_records h).handed, ?_⟩
  rw [true_and]
  exact flowBlock_named hfall h

/-- The name that an entry of the imports of a document is bound to. -/
def importedName? (entry : Value) : Option String :=
  (Import.ofEntry? entry).bind fun imported => imported.path.text?.bind fun _ => boundAs imported.boundName

/-- The names that a document gives outside of its tasks. -/
def documentNames (document : Fields) : List String :=
  (document.get "import").items.filterMap importedName? ++
    ((document.get "variables").fields?.getD []).filterMap (·.1.identifier?)

theorem isIdentifier_of_mem_documentNames {document : Fields} {name : String}
    (h : name ∈ documentNames document) : isIdentifier name = true := by
  rcases List.mem_append.mp h with h | h
  · obtain ⟨entry, -, hname⟩ := List.mem_filterMap.mp h
    obtain ⟨imported, -, hname⟩ := Option.bind_eq_some_iff.mp hname
    obtain ⟨path, -, hname⟩ := Option.bind_eq_some_iff.mp hname
    exact (Option.filter_eq_some_iff.mp hname).2
  · obtain ⟨entry, -, hname⟩ := List.mem_filterMap.mp h
    exact (identifier?_eq_some hname).2

theorem entryBlock_named {imported : Import} {path : String}
    (h : (entryBlock ctx imported path).Runs s b s') :
    Named Q b ↔ ∀ name, boundAs imported.boundName = some name → Q .own name := by
  have hfilled : boundAs (imported.boundName.filter (· != "")) = boundAs imported.boundName := by
    cases hgiven : imported.boundName with
    | none => rfl
    | some given =>
      by_cases hempty : given = ""
      · subst hempty
        decide
      · simp [Option.filter, hempty]
  unfold entryBlock at h
  split_ifs at h
  · obtain ⟨name, t, hn, h⟩ := runs_bind.mp h
    obtain ⟨rfl, -⟩ := importName_spec hn
    rw [hfilled] at h
    cases hbound : boundAs imported.boundName with
    | none =>
      rw [hbound] at h
      rw [importBlock_named h, hbound]
    | some bound =>
      simp only [hbound, runs_bind, runs_pure] at h
      obtain ⟨_, _, -, code, _, -, rfl, -⟩ := h
      simp
  · exact importBlock_named h

theorem documentImport_naming {entry : Value} (h : (documentImport ctx entry).Runs s b s') :
    Naming Q ctx.settings (∀ name, importedName? entry = some name → Q .own name) s b s' := by
  obtain ⟨names, hbinds⟩ := documentImport_binds h
  refine .of_handed hbinds.handed ?_
  unfold documentImport at h
  split at h
  · rename_i imported path hread
    obtain ⟨found, hfound, hpath⟩ := Option.bind_eq_some_iff.mp hread
    obtain ⟨text, htext, he⟩ := Option.map_eq_some_iff.mp hpath
    obtain ⟨rfl, rfl⟩ := Prod.mk.inj he
    have hname : importedName? entry = boundAs found.boundName := by
      simp [importedName?, hfound, htext]
    rw [hname]
    exact entryBlock_named h
  · rename_i hread
    have hname : importedName? entry = none := by
      rw [importedName?, Option.bind_eq_none_iff]
      intro imported hfound
      have hpath := Option.bind_eq_none_iff.mp hread imported hfound
      rw [Option.map_eq_none_iff.mp hpath, Option.bind_none]
    simp only [runs_bind, runs_pure] at h
    obtain ⟨_, _, -, _, _, -, rfl, -⟩ := h
    simp [hname]

theorem named_taskTitle (name : String) (i total : Nat) : Named Q (taskTitle name i total) := by
  unfold taskTitle
  split_ifs <;> simp

theorem outputBlock_naming {output : Value} (h : (outputBlock ctx output).Runs s b s') :
    Naming Q ctx.settings True s b s' := by
  refine .of_handed (outputBlock_quiet output h).handed (iff_true_intro ?_)
  simp only [outputBlock] at h
  split_ifs at h
  · obtain ⟨rfl, -⟩ := runs_pure.mp h
    exact named_nil
  · simp only [runs_bind, runs_pure] at h
    obtain ⟨_, _, -, rfl, -⟩ := h
    exact named_nil
  · split at h
    · simp only [runs_bind, runs_pure] at h
      obtain ⟨_, _, -, _, _, -, rfl, -⟩ := h
      exact named_nil
    · simp only [runs_bind, runs_pure] at h
      obtain ⟨_, _, -, _, _, -, rfl, -⟩ := h
      simp

theorem taskFlowBlock_naming {task : Value} {name : String} {flow : Flow} (hfall : Fallbacks Q)
    (h : (taskFlowBlock ctx task name flow).Runs s b s') : Naming Q ctx.settings True s b s' := by
  unfold taskFlowBlock at h
  split at h
  · simp only [requireHelper, runs_bind, runs_modify, runs_pure] at h
    obtain ⟨_, _, rfl, body, _, hbody, rfl, rfl⟩ := h
    obtain ⟨steps, hsteps, hnamed⟩ := flowAt_naming hfall hbody
    refine ⟨steps, hsteps, ?_⟩
    rw [← hnamed]
    simp [isolated, Header.targets, hfall.fixed "_task_error" (by simp)]
  · exact flowAt_naming hfall h

theorem taskBlock_naming {total : Nat} {numbered : Value × Nat} (hfall : Fallbacks Q)
    (h : (taskBlock ctx total numbered).Runs s b s') : Naming Q ctx.settings True s b s' := by
  simp only [taskBlock] at h
  have htitle := named_taskTitle (Q := Q) (taskName numbered.1 numbered.2) numbered.2 total
  split at h
  · simp only [runs_bind, runs_pure] at h
    obtain ⟨_, _, hw, rfl, rfl⟩ := h
    exact .of_handed (Quiet.warn _ hw).handed (by simp [htitle])
  · simp only [runs_bind, runs_pure] at h
    obtain ⟨body, _, hbody, output, _, houtput, rfl, rfl⟩ := h
    have hboth := (taskFlowBlock_naming hfall hbody).append (outputBlock_naming houtput)
    exact hboth.congr (by simp [htitle]) (by simp)

/-- What holds of all legal names holds of those that no document gives. -/
theorem fallbacks_of_legal (h : ∀ name, isLegalName name = true → Q .own name) : Fallbacks Q where
  fixed name hname := by
    have hall : ∀ name ∈ ["result", "response", Transform.defaultOutput, "item", "index", "i", "e",
        "_task_error"], isLegalName name = true := by decide
    exact h name (hall name hname)
  counter k := by
    cases k with
    | zero => exact h _ (by decide)
    | succ k => exact h _ (isLegalName_numbered (by decide) (k + 1))
  output i := h _ (isLegalName_madeUpName i)

/-- What is asked of names holds of a program exactly if it holds of the names that its document gives
and of those that the steps use which it comes to. -/
theorem documentBlock_naming {document : Fields} (hfall : Fallbacks Q)
    (h : (documentBlock ctx document).Runs s b s') :
    Naming Q ctx.settings (∀ name ∈ documentNames document, Q .own name) s b s' := by
  simp only [documentBlock, prologue, documentImports, runs_bind, runs_pure] at h
  obtain ⟨first, t, ⟨imports, _, hi, globals, _, hg, rfl, rfl⟩, body, _, hbody, rfl, rfl⟩ := h
  have himports := Naming.each (fun entry _ {s b s'} hentry =>
    documentImport_naming (Q := Q) hentry) hi
  have hglobals : Naming Q ctx.settings _ _ globals _ :=
    .of_handed (bindingsBlock_binds hg).handed (bindingsBlock_named hg)
  have htasks := Naming.each (fun numbered _ {s b s'} htask => taskBlock_naming hfall htask) hbody
  have hfirst : Named Q (if (imports ++ globals).isEmpty then [] else imports ++ globals ++ [.blank]) ↔
      Named Q (imports ++ globals) := by
    split_ifs with hempty
    · rw [List.isEmpty_iff.mp hempty]
    · simp
  refine ((himports.append hglobals).append htasks).congr ?_ ?_
  · rw [named_append, named_append, hfirst]
  · simp only [documentNames, List.forall_mem_append, List.mem_filterMap]
    grind

/-- Asks of names that are bound where they are given that they pass the test of names. -/
def OwnTested : Role → String → Prop
  | .own, name => isIdentifier name = true
  | .shared, _ => True

theorem documentBlock_ownTested {document : Fields} (h : (documentBlock ctx document).Runs s b s') :
    Named OwnTested b := by
  have hfall : Fallbacks OwnTested := fallbacks_of_legal fun name hlegal => isIdentifier_of_isLegalName hlegal
  obtain ⟨steps, -, hnamed⟩ := documentBlock_naming hfall h
  refine hnamed.mpr ⟨fun name hgiven => isIdentifier_of_mem_documentNames hgiven, fun step _ _ => ⟨?_, ?_⟩⟩
  · rintro name ⟨v, -, hv⟩
    exact (identifier?_eq_some hv).2
  · exact fun _ _ => trivial

end Flows

end Program

open Program Program.Pass

/-- The names that a program binds where they are given are legal, or have the form of a name with a line
feed behind it. All of its names are legal exactly if those are which its document gives, which the
steps give that it comes to, and which the walk finds in the branches of their parallel groups. -/
theorem names_legal_iff {tree : File.Tree} {settings : Settings} {request : Compilation.Request}
    {compilation : Compilation} (h : compile tree settings request = .ok compilation) :
    ∃ loaded fields block state, request.source.load tree settings = .ok loaded ∧
      loaded.document.fields? = some fields ∧
      (documentBlock (request.context settings) fields).run {} = .ok (block, state) ∧
      LaysOut (request.context settings) (filled block) compilation.code ∧
      (∀ name, (Role.own, name) ∈ blockNames block → isLegalName name = true ∨
        ∃ front, name = front ++ "\n" ∧ hasNameForm front.toList = true) ∧
      ((∀ x ∈ blockNames block, isLegalName x.2 = true) ↔
        (∀ name ∈ documentNames fields, isLegalName name = true) ∧
        ∀ step ∈ state.handed, step.isSkipped = false →
          (∀ name, step.Gives name → isLegalName name = true) ∧
          ∀ name, step.Shares settings name → isLegalName name = true) := by
  obtain ⟨loaded, fields, block, state, hloaded, hfields, hrun, hcode⟩ := compile_eq_ok h
  have hfall : Fallbacks fun _ name => isLegalName name = true := fallbacks_of_legal fun _ hlegal => hlegal
  obtain ⟨steps, hsteps, hnamed⟩ := documentBlock_naming hfall hrun
  have hhanded : state.handed = steps := by simpa using hsteps
  refine ⟨loaded, fields, block, state, hloaded, hfields, hrun, hcode, fun name hname => ?_, ?_⟩
  · exact isIdentifier_iff.mp (documentBlock_ownTested hrun _ hname)
  · rw [hhanded]
    exact hnamed

/-- A step that binds the given names to numbers. -/
def bindingStep (names : List String) : Value :=
  .map [(.text "variables", .map (names.map fun n => (.text n, .int 1)))]

/-- A parallel group with one branch. -/
def branchingStep (flow : Flow) : Value :=
  .map [(.text "parallel", .map [(.text "tasks", .list [.map [(.text "flow", .list flow)]])])]

/-- A name that fails the test outside of branches, and one inside that passes it. -/
def sharingFlow : Flow := [bindingStep ["my var", "v"], branchingStep [bindingStep ["w"]]]

theorem sharingFlow_names_legal :
    ∃ compilation block state,
      compile { here := ⟨true, [], false⟩ } {}
        { source := .value (.map (oneTask sharingFlow)), template := .text "module" } = .ok compilation ∧
      (documentBlock {} (oneTask sharingFlow)).run {} = .ok (block, state) ∧
      blockNames block = [(.own, "v"), (.shared, "w"), (.shared, "w"), (.own, "w")] ∧
      ∀ step ∈ state.handed, step.isSkipped = false → (∀ name, step.Gives name → isLegalName name = true) ∧
        ∀ name, step.Shares {} name → isLegalName name = true := by
  have hok : (compile { here := ⟨true, [], false⟩ } {}
      { source := .value (.map (oneTask sharingFlow)), template := .text "module" }).toOption.isSome =
        true := by decide +kernel
  have hshape : ((documentBlock {} (oneTask sharingFlow)).run {}).toOption.map (fun r => blockNames r.1) =
      some [(.own, "v"), (.shared, "w"), (.shared, "w"), (.own, "w")] := by decide +kernel
  cases hc : compile { here := ⟨true, [], false⟩ } {}
      { source := .value (.map (oneTask sharingFlow)), template := .text "module" } with
  | error e => simp [hc, Except.toOption] at hok
  | ok compilation =>
    obtain ⟨loaded, fields, block, state, hloaded, hfields, hrun, -, -, hiff⟩ := names_legal_iff hc
    obtain rfl := Except.ok.inj hloaded
    obtain rfl := Option.some.inj hfields
    have hrun' : (documentBlock {} (oneTask sharingFlow)).run {} = .ok (block, state) := hrun
    have hnames : blockNames block = [(.own, "v"), (.shared, "w"), (.shared, "w"), (.own, "w")] := by
      simpa [hrun', Except.toOption] using hshape
    refine ⟨compilation, block, state, rfl, hrun', hnames, (hiff.mp ?_).2⟩
    rw [hnames]
    decide

/-- A line feed at the end of a name stays in the program, and a branch shares also names that it never
binds. -/
theorem illegal_names_bound :
    ((flowAt {} 1 [bindingStep ["x\n"]]).run {}).toOption.map
        (fun r => (r.1.lines (Margin.copies "    ") 1, blockNames r.1)) =
      some (["    x\n = 1"], [(.own, "x\n")]) ∧
    isLegalName "x\n" = false ∧
    ((flowAt {} 1 [branchingStep [bindingStep ["my var", "ok"]]]).run {}).toOption.map
        (fun r => r.1.lines (Margin.copies "    ") 1) =
      some ["    my var = None", "    ok = None", "", "    async def _parallel_1_branch_0():",
        "        nonlocal my var, ok", "        # Skipped variable 'my var': not a valid identifier",
        "        ok = 1", "", "    await _gather_all(_parallel_1_branch_0())"] ∧
    ((flowAt {} 1 [branchingStep [bindingStep ["my var", "ok"]]]).run {}).toOption.map
        (fun r => blockNames r.1) =
      some [(.shared, "my var"), (.shared, "ok"), (.shared, "my var"), (.shared, "ok"), (.own, "ok")] ∧
    isLegalName "my var" = false := by
  refine ⟨?_, ?_, ?_, ?_, ?_⟩
  all_goals decide +kernel

end FlowScript
