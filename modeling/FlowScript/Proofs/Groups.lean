import FlowScript.Proofs.Defined
import FlowScript.Proofs.Flagged
import FlowScript.Proofs.WellNested
import Mathlib.Data.List.Perm.Basic

/-!
# Groups of branch functions

Every branch of a parallel group becomes a function, and one line after the functions runs them
together. A function is named by the number of its group and its position in it. A group takes its number
before its branches are compiled, so the groups inside of it come next, and the groups after it only
then. What is put back after a branch is the scope and not the number. So the groups of a program are
numbered in the order in which their steps are handed to their rule. The main statement is that all
functions have different names and stand in groups that are joined once.
-/
namespace FlowScript

open Construct

/-- The group that a step opens: one with at least one branch. -/
def Step.group? (step : Step) : Option Parallel :=
  if step.kind = .parallel then (Parallel.read? step).filter (!·.branches.isEmpty) else none

theorem Construct.Parallel.length_outputs (parallel : Parallel) :
    parallel.outputs.length = if parallel.merges then parallel.branches.length else 0 := by
  unfold Parallel.outputs
  split_ifs <;> simp

namespace Program

open Pass

/-! ## Names of functions -/

theorem branchFunction_injective {group group' i i' : Nat}
    (h : branchFunction group i = branchFunction group' i') : group = group' ∧ i = i' := by
  -- The digits of the number end at the underscore after them.
  have hdigits (n m : Nat) : ((Number.natText n ++ "_branch_" ++ Number.natText m).toList).takeWhile
      (· != '_') = (Number.natText n).toList := by
    have hbreak : "_branch_".toList = '_' :: "branch_".toList := rfl
    rw [String.toList_append, String.toList_append, List.append_assoc, hbreak, List.cons_append,
      List.takeWhile_append_of_pos, List.takeWhile_cons_of_neg (by decide), List.append_nil]
    intro c hc
    rw [Number.natText, String.toList_ofList] at hc
    have hdigit : c.isDigit = true := Nat.isDigit_of_mem_toDigits (by decide) (by decide) hc
    rw [bne_iff_ne]
    rintro rfl
    exact absurd hdigit (by decide)
  simp only [branchFunction, String.append_assoc, String.append_right_inj] at h
  rw [← String.append_assoc, ← String.append_assoc] at h
  have hgroup : Number.natText group = Number.natText group' := by
    rw [← String.toList_inj, ← hdigits group i, ← hdigits group' i', h]
  rw [hgroup, String.append_assoc, String.append_assoc, String.append_right_inj,
    String.append_right_inj] at h
  exact ⟨Number.natText_injective hgroup, Number.natText_injective h⟩

mutual

/-- The names of the branch functions in an item, at any depth. -/
def Item.functions : Item → List String
  | .block (.branch function) body => function :: blockFunctions body
  | .block _ body => blockFunctions body
  | _ => []

def blockFunctions : List Item → List String
  | [] => []
  | item :: items => item.functions ++ blockFunctions items

end

/-! ## Groups -/

/-- A group and the number that it was given. -/
structure Group where
  number : Nat
  parallel : Parallel

namespace Group

/-- The functions of a group, in the order of its branches. -/
def functions (group : Group) : List String :=
  (List.range group.parallel.branches.length).map (branchFunction group.number)

/-- What runs the functions of a group together and stores the results of a merging one. -/
def join (group : Group) : Statement := .join group.parallel.outputs group.functions

/-- The text that calls the functions of a group, each once and in the order of the branches. -/
def callText (group : Group) : String :=
  "await _gather_all(" ++ String.intercalate ", " (group.functions.map (· ++ "()")) ++ ")"

/-- The text that joins a group. A single result is taken out of the list, several are unpacked. -/
def joinText (group : Group) : String :=
  match group.parallel.outputs with
  | [] => group.callText
  | [output] => output ++ " = (" ++ group.callText ++ ")[0]"
  | outputs => String.intercalate ", " outputs ++ " = " ++ group.callText

theorem code_join (group : Group) : group.join.code = group.joinText := by
  unfold join joinText
  match group.parallel.outputs with
  | [] => rfl
  | [output] => rfl
  | output :: next :: outputs => rfl

end Group

/-- Groups one after the other, if there were `before` many before them. -/
def numbered (before : Nat) (parallels : List Parallel) : List Group :=
  (parallels.zipIdx (before + 1)).map fun p => ⟨p.2, p.1⟩

/-- The groups that steps open. -/
def parallels (steps : List Step) : List Parallel := steps.filterMap Step.group?

def Statement.isJoin : Statement → Bool
  | .join .. => true
  | _ => false

/-- A function of a group: its name, its body and the groups in it. -/
structure GroupFunction where
  name : String
  body : Block
  inner : List Group

/-- A block in which functions stand only in groups and every group is followed, at its own level, by the
line that joins it. No other line joins functions. The groups are listed from top to bottom, each before
those in its functions. -/
inductive Grouped : Block → List Group → Prop where
  | nil : Grouped [] []
  | line {statement : Statement} {b : Block} {groups : List Group} (hjoin : statement.isJoin = false)
      (hrest : Grouped b groups) : Grouped (.line statement :: b) groups
  | comment {text : String} {b : Block} {groups : List Group} (hrest : Grouped b groups) :
      Grouped (.comment text :: b) groups
  | blank {b : Block} {groups : List Group} (hrest : Grouped b groups) : Grouped (.blank :: b) groups
  | block {header : Header} {body b : Block} {inner groups : List Group}
      (hheader : ∀ function, header ≠ .branch function) (hbody : Grouped body inner)
      (hrest : Grouped b groups) : Grouped (.block header body :: b) (inner ++ groups)
  | group {group : Group} {functions : List GroupFunction} {b : Block} {groups : List Group}
      (hnames : functions.map (·.name) = group.functions)
      (hbodies : ∀ f ∈ functions, Grouped f.body f.inner) (hrest : Grouped b groups) :
      Grouped (functions.flatMap (fun f => functionItems (f.name, f.body)) ++ .line group.join :: b)
        (group :: functions.flatMap (·.inner) ++ groups)

section Blocks

variable {a b : Block} {groups others : List Group}

@[simp] theorem blockFunctions_nil : blockFunctions [] = [] := by rw [blockFunctions]

@[simp] theorem blockFunctions_cons (item : Item) (items : Block) :
    blockFunctions (item :: items) = item.functions ++ blockFunctions items := by rw [blockFunctions]

@[simp] theorem blockFunctions_append : blockFunctions (a ++ b) = blockFunctions a ++ blockFunctions b := by
  induction a with
  | nil => simp
  | cons item items ih => simp [ih]

theorem functions_block {header : Header} (h : ∀ function, header ≠ .branch function) :
    (Item.block header b).functions = blockFunctions b := by
  cases header with
  | branch function => exact absurd rfl (h function)
  | _ => rw [Item.functions]; simp

theorem blockFunctions_functionItems (functions : List GroupFunction) :
    blockFunctions (functions.flatMap fun f => functionItems (f.name, f.body)) =
      functions.flatMap fun f => f.name :: blockFunctions f.body := by
  induction functions with
  | nil => simp
  | cons f rest ih =>
    rw [List.flatMap_cons, blockFunctions_append, ih, List.flatMap_cons]
    simp [functionItems, Item.functions]

/-- The functions of a block are those of its groups. -/
theorem Grouped.functions_perm (h : Grouped b groups) :
    (blockFunctions b).Perm (groups.flatMap Group.functions) := by
  induction h with
  | nil => simp
  | line _ _ ih | comment _ ih | blank _ ih => simpa [Item.functions] using ih
  | block hheader _ _ ihbody ihrest =>
    rw [blockFunctions_cons, functions_block hheader, List.flatMap_append]
    exact ihbody.append ihrest
  | @group group functions b groups hnames _ _ ihbodies ihrest =>
    -- The bodies stand between the names.
    have hinner : (functions.flatMap fun f => blockFunctions f.body).Perm
        (functions.flatMap fun f => f.inner.flatMap Group.functions) := List.Perm.flatMap_left _ ihbodies
    have hfunctions : (functions.flatMap fun f => f.name :: blockFunctions f.body).Perm
        (functions.map (·.name) ++ functions.flatMap fun f => blockFunctions f.body) :=
      (List.map_append_flatMap_perm _ _ _).symm
    rw [blockFunctions_append, blockFunctions_functionItems, blockFunctions_cons, Item.functions,
      List.nil_append, List.cons_append, List.flatMap_cons, List.flatMap_append, ← List.append_assoc,
      List.flatMap_assoc, ← hnames]
    · exact (hfunctions.trans (hinner.append_left _)).append ihrest
    all_goals simp

theorem Grouped.append (ha : Grouped a groups) (hb : Grouped b others) :
    Grouped (a ++ b) (groups ++ others) := by
  induction ha with
  | nil => exact hb
  | line hjoin _ ih => exact .line hjoin ih
  | comment _ ih => exact .comment ih
  | blank _ ih => exact .blank ih
  | block hheader hbody _ _ ih =>
    rw [List.append_assoc]
    exact .block hheader hbody ih
  | group hnames hbodies _ _ ih =>
    rw [List.append_assoc, List.append_assoc]
    exact .group hnames hbodies ih

/-- The functions of a group and the line that joins them, at a level. -/
def Group.lines (group : Group) (margin : Margin) (level : Int) (functions : List (String × List String)) :
    List String :=
  functions.flatMap (fun f => (margin level ++ ("async def " ++ f.1 ++ "():")) :: (f.2 ++ [""])) ++
    [margin level ++ group.joinText]

/-- The body of a function stands in the lines of the functions. -/
theorem body_infix_functions {functions : List GroupFunction} {f : GroupFunction} (hf : f ∈ functions)
    (margin : Margin) (level : Int) : f.body.lines margin (level + 1) <:+:
      functions.flatMap fun f => functionLines margin level f.name (f.body.lines margin (level + 1)) := by
  have hbody : f.body.lines margin (level + 1) <:+:
      functionLines margin level f.name (f.body.lines margin (level + 1)) := ⟨[_], [""], rfl⟩
  rw [List.flatMap_def]
  exact hbody.trans (List.infix_of_mem_flatten (List.mem_map.mpr ⟨f, hf, rfl⟩))

/-- A group stands in the lines of a block as one piece: its functions, and then the line that joins them. -/
theorem Grouped.infix_lines (h : Grouped b groups) (margin : Margin) (level : Int) {group : Group}
    (hgroup : group ∈ groups) : ∃ l functions, functions.map Prod.fst = group.functions ∧
      group.lines margin l functions <:+: b.lines margin level := by
  induction h generalizing level with
  | nil => cases hgroup
  | line _ _ ih | comment _ ih | blank _ ih =>
    obtain ⟨l, functions, hnames, hlines⟩ := ih level hgroup
    refine ⟨l, functions, hnames, hlines.trans ?_⟩
    rw [lines_cons]
    exact (List.suffix_append _ _).isInfix
  | block _ _ _ ihbody ihrest =>
    rw [lines_cons, Item.lines]
    rcases List.mem_append.mp hgroup with hinner | hrest
    · obtain ⟨l, functions, hnames, hlines⟩ := ihbody (level + 1) hinner
      exact ⟨l, functions, hnames, (hlines.trans (List.suffix_cons _ _).isInfix).trans (List.prefix_append _ _).isInfix⟩
    · obtain ⟨l, functions, hnames, hlines⟩ := ihrest level hrest
      exact ⟨l, functions, hnames, hlines.trans (List.suffix_append _ _).isInfix⟩
  | @group own functions b groups hnames _ _ ihbodies ihrest =>
    have hlaid : Block.lines margin level (functions.flatMap fun f => functionItems (f.name, f.body)) =
        functions.flatMap fun f => functionLines margin level f.name (f.body.lines margin (level + 1)) := by
      have hmap := lines_functionItems margin level (functions.map fun f => (f.name, f.body))
      rwa [List.flatMap_map, List.flatMap_map] at hmap
    rw [lines_append, lines_cons, Item.lines, own.code_join, hlaid]
    rcases List.mem_append.mp hgroup with hhere | hrest
    · rcases List.mem_cons.mp hhere with rfl | hinner
      · refine ⟨level, functions.map fun f => (f.name, f.body.lines margin (level + 1)), ?_, ?_⟩
        · rw [List.map_map]
          exact hnames
        · rw [Group.lines, List.flatMap_map, ← List.append_assoc]
          exact (List.prefix_append _ _).isInfix
      · obtain ⟨f, hf, hinner⟩ := List.mem_flatMap.mp hinner
        obtain ⟨l, inside, hinside, hlines⟩ := ihbodies f hf (level + 1) hinner
        refine ⟨l, inside, hinside, (hlines.trans (body_infix_functions hf margin level)).trans ?_⟩
        exact (List.prefix_append _ _).isInfix
    · obtain ⟨l, inside, hinside, hlines⟩ := ihrest level hrest
      refine ⟨l, inside, hinside, hlines.trans ?_⟩
      exact ((List.suffix_append _ _).trans (List.suffix_append _ _)).isInfix

end Blocks

section Numbers

variable {before : Nat} {ps qs : List Parallel}

@[simp] theorem numbered_nil : numbered before [] = [] := rfl

theorem numbered_cons (p : Parallel) :
    numbered before (p :: ps) = ⟨before + 1, p⟩ :: numbered (before + 1) ps := by
  simp [numbered, List.zipIdx_cons]

theorem numbered_append :
    numbered before (ps ++ qs) = numbered before ps ++ numbered (before + ps.length) qs := by
  rw [numbered, numbered, numbered, List.zipIdx_append, List.map_append, Nat.add_right_comm]

theorem number_gt {group : Group} (h : group ∈ numbered before ps) : before < group.number := by
  obtain ⟨p, hp, rfl⟩ := List.mem_map.mp h
  exact List.le_snd_of_mem_zipIdx hp

/-- Groups with different numbers have no function in common. -/
theorem disjoint_functions {group other : Group} (h : group.number ≠ other.number) :
    List.Disjoint group.functions other.functions := by
  intro name hname hother
  obtain ⟨i, -, rfl⟩ := List.mem_map.mp hname
  obtain ⟨j, -, he⟩ := List.mem_map.mp hother
  exact h (branchFunction_injective he).1.symm

theorem nodup_functions (group : Group) : group.functions.Nodup :=
  List.nodup_range.map fun _ _ h => (branchFunction_injective h).2

theorem nodup_numbered (before : Nat) (ps : List Parallel) :
    ((numbered before ps).flatMap Group.functions).Nodup := by
  induction ps generalizing before with
  | nil => simp
  | cons p ps ih =>
    rw [numbered_cons, List.flatMap_cons]
    refine (nodup_functions _).append (ih _) ?_
    intro name hname hlater
    obtain ⟨group, hgroup, hlater⟩ := List.mem_flatMap.mp hlater
    have hgt := number_gt hgroup
    exact disjoint_functions (by simp only; omega) hname hlater

end Numbers

/-! ## What a pass keeps -/

/-- From one state to the next a block is left whose groups are those of the steps that were handed on the
way, numbered from where the first state stands. -/
def Numbers (s : State) (b : Block) (s' : State) : Prop :=
  ∃ steps, s'.handed = s.handed ++ steps ∧ s'.groups = s.groups + (parallels steps).length ∧
    Grouped b (numbered s.groups (parallels steps))

/-- A pass that leaves such a block. -/
def Numbering (p : Pass Block) : Prop :=
  ∀ ⦃s : State⦄ ⦃b : Block⦄ ⦃s' : State⦄, p.Runs s b s' → Numbers s b s'

/-- Lines, comments and blanks, of which none joins functions. -/
def Item.isGroupless : Item → Bool
  | .line statement => !statement.isJoin
  | .comment _ => true
  | .blank => true
  | .block .. => false

theorem grouped_of_groupless {b : Block} (h : b.all Item.isGroupless = true) : Grouped b [] := by
  induction b with
  | nil => exact .nil
  | cons item items ih =>
    rw [List.all_cons, Bool.and_eq_true] at h
    cases item with
    | line statement => exact .line (by simpa [Item.isGroupless] using h.1) (ih h.2)
    | comment text => exact .comment (ih h.2)
    | blank => exact .blank (ih h.2)
    | block header body => simp [Item.isGroupless] at h

section Numbered

variable {names : List String} {s t s' : State} {a b : Block}

namespace Numbers

/-- Nothing is handed on the way. -/
theorem of_eq (hh : s'.handed = s.handed) (hg : s'.groups = s.groups)
    (hb : b.all Item.isGroupless = true) : Numbers s b s' :=
  ⟨[], by simp [hh], by simp [hg, parallels], grouped_of_groupless hb⟩

theorem of_binds (h : s.Binds names s') (hb : b.all Item.isGroupless = true) : Numbers s b s' :=
  of_eq h.handed h.groups hb

protected theorem append (h : Numbers s a t) (h' : Numbers t b s') : Numbers s (a ++ b) s' := by
  obtain ⟨steps, hhanded, hgroups, hblock⟩ := h
  obtain ⟨more, hhanded', hgroups', hblock'⟩ := h'
  have hparallels : parallels (steps ++ more) = parallels steps ++ parallels more := List.filterMap_append
  refine ⟨steps ++ more, by rw [hhanded', hhanded, List.append_assoc], ?_, ?_⟩
  · rw [hgroups', hgroups, hparallels, List.length_append, Nat.add_assoc]
  · rw [hparallels, numbered_append, ← hgroups]
    exact hblock.append hblock'

/-- What is bound in front of a block does not matter. -/
protected theorem after (hb : s.Binds names t) (h : Numbers t b s') : Numbers s b s' :=
  (of_binds hb (b := []) rfl).append h

protected theorem filled (h : Numbers s b s') : Numbers s (filled b) s' := by
  cases b with
  | cons item items => exact h
  | nil =>
    obtain ⟨steps, hhanded, hgroups, hblock⟩ := h
    have hpass : Grouped [.line .pass] [] := .line rfl .nil
    exact ⟨steps, hhanded, hgroups, by simpa [Pass.filled] using hblock.append hpass⟩

/-- A header that opens no function may be put above a block. -/
protected theorem block {header : Header} (hheader : ∀ function, header ≠ .branch function)
    (h : Numbers s b s') : Numbers s [.block header b] s' := by
  obtain ⟨steps, hhanded, hgroups, hblock⟩ := h
  refine ⟨steps, hhanded, hgroups, ?_⟩
  simpa using Grouped.block hheader hblock .nil

end Numbers

theorem Numbering.each {α : Type} {f : α → Pass Block} {entries : List α}
    (hf : ∀ entry ∈ entries, Numbering (f entry)) : Numbering (Pass.each f entries) := by
  induction entries with
  | nil =>
    intro s b s' h
    obtain ⟨rfl, rfl⟩ := runs_each_nil.mp h
    exact .of_eq rfl rfl rfl
  | cons entry rest ih =>
    intro s b s' h
    obtain ⟨first, t, others, hfirst, hrest, rfl⟩ := runs_each_cons.mp h
    exact (hf entry List.mem_cons_self hfirst).append
      (ih (fun other hmem => hf other (List.mem_cons_of_mem _ hmem)) hrest)

end Numbered

/-! ## Steps and flows -/

section Steps

variable {ctx : Context} {step : Step} {nested : Flow → Pass Block} {s s' : State} {b : Block}

theorem groupless_branchHeader (names : List String) : (branchHeader names).all Item.isGroupless = true := by
  unfold branchHeader
  split_ifs <;> rfl

theorem groupless_branchEnd {merges : Bool} {flow : Flow} {names : List String} {body ending : Block}
    (h : (branchEnd merges flow names body).Runs s ending s') : ending.all Item.isGroupless = true := by
  unfold branchEnd at h
  split_ifs at h
  · simp only [runs_bind, runs_pure] at h
    obtain ⟨_, _, -, rfl, -⟩ := h
    rfl
  · obtain ⟨rfl, -⟩ := runs_pure.mp h
    rfl
  · obtain ⟨rfl, -⟩ := runs_pure.mp h
    rfl

theorem groupless_hoisted (names : List String) :
    (names.map (fun n => Item.line (.hoist n)) ++
      afterHoisted (names.map fun n => .line (.hoist n))).all Item.isGroupless = true := by
  cases names with
  | nil => rfl
  | cons name rest => simp [afterHoisted, Item.isGroupless, Statement.isJoin]

/-- The functions of a group, each with the groups in it. -/
theorem BranchesRun.numbers {merges : Bool} {group : Nat} {named : List NamedBranch}
    (hnested : ∀ flow, Numbering (nested flow)) (h : BranchesRun nested merges group named s b s') :
    ∃ functions : List GroupFunction, ∃ steps,
      b = functions.flatMap (fun f => functionItems (f.name, f.body)) ∧
      functions.map (·.name) = named.map (fun branch => branchFunction group branch.index) ∧
      (∀ f ∈ functions, Grouped f.body f.inner) ∧
      s'.handed = s.handed ++ steps ∧ s'.groups = s.groups + (parallels steps).length ∧
      functions.flatMap (·.inner) = numbered s.groups (parallels steps) := by
  induction h with
  | nil => exact ⟨[], [], by simp [parallels]⟩
  | @cons branch rest body ending others s t s' hn he hr ih =>
    obtain ⟨functions, more, rfl, hnames, hbodies, hhanded', hgroups', hinner⟩ := ih
    have hending : Numbers t ending t := .of_eq rfl rfl (groupless_branchEnd he)
    have hheader : Numbers s (branchHeader branch.names) s := .of_eq rfl rfl (groupless_branchHeader _)
    obtain ⟨steps, hhanded, hgroups, hbody⟩ := (hheader.append (hnested _ hn)).append hending
    have hparallels : parallels (steps ++ more) = parallels steps ++ parallels more :=
      List.filterMap_append
    refine ⟨⟨branchFunction group branch.index, _, numbered s.groups (parallels steps)⟩ :: functions,
      steps ++ more, rfl, by simp [hnames], List.forall_mem_cons.mpr ⟨hbody, hbodies⟩, ?_, ?_, ?_⟩
    · rw [hhanded', ← List.append_assoc, ← hhanded]
    · rw [hgroups', hparallels, List.length_append, ← Nat.add_assoc, ← hgroups]
    · rw [List.flatMap_cons, hinner, hparallels, numbered_append, ← hgroups]

theorem HandlerRun.numbers {guard : Guard} (hnested : ∀ flow, Numbering (nested flow))
    (h : HandlerRun nested guard s b s') : Numbers s b s' := by
  cases h with
  | handled hf hb hn => exact (hnested _ hn).filled.block (by simp) |>.after hb
  | absent => exact .of_eq rfl rfl rfl
  | ignored hf hc hb => exact (Numbers.of_binds hb rfl).block (by simp)

theorem CleanupRun.numbers {guard : Guard} (hnested : ∀ flow, Numbering (nested flow))
    (h : CleanupRun nested guard s b s') : Numbers s b s' := by
  cases h with
  | cleaned hf hn => exact (hnested _ hn).filled.block (by simp)
  | absent => exact .of_eq rfl rfl rfl

/-- The branches are numbered by their positions. -/
theorem nameBranches_index {parallel : Parallel} {named : List NamedBranch}
    (h : nameBranches ctx parallel = .ok named) :
    named.map (·.index) = List.range parallel.branches.length := by
  have hall := forall₂_of_mapM h
  have hindex : named.map (·.index) = parallel.branches.zipIdx.map (·.2) := by
    clear h
    generalize parallel.branches.zipIdx = pairs at hall
    induction hall with
    | nil => rfl
    | cons hb _ ih =>
      obtain ⟨levels, -, hb⟩ := bind_eq_ok.mp hb
      obtain ⟨names, -, hb⟩ := bind_eq_ok.mp hb
      obtain rfl := Except.ok.inj hb
      rw [List.map_cons, List.map_cons, ih]
  rw [hindex, List.zipIdx_map_snd, List.range_eq_range']

theorem bindingsBlock_groupless {bindings : Fields} (h : (bindingsBlock ctx bindings).Runs s b s') :
    b.all Item.isGroupless = true := by
  rw [List.all_eq_true]
  intro item hitem
  obtain ⟨name, code, rfl⟩ | ⟨text, rfl⟩ := bindingsBlock_items h hitem
  · rfl
  · rfl

theorem importBlock_groupless {imported : Import} {path : String}
    (h : (importBlock ctx imported path).Runs s b s') : b.all Item.isGroupless = true := by
  obtain ⟨name, code, -, rfl, -⟩ | ⟨-, -, ⟨-, rest, rfl⟩ | ⟨-, _, -, rfl⟩⟩ := importBlock_spec h
  all_goals rfl

theorem group?_of_kind (h : step.kind ≠ .parallel) : step.group? = none := if_neg h

/-- A step opens its own group, if it has one, before those of its flows. -/
theorem StepRun.numbers (hnested : ∀ flow, Numbering (nested flow))
    (h : StepRun nested ctx step s b s') :
    ∃ steps, s'.handed = s.handed ++ steps ∧ s'.groups = s.groups + (parallels (step :: steps)).length ∧
      Grouped b (numbered s.groups (parallels (step :: steps))) := by
  have none_opened (hnone : step.group? = none) (h : Numbers s b s') :
      ∃ steps, s'.handed = s.handed ++ steps ∧ s'.groups = s.groups + (parallels (step :: steps)).length ∧
        Grouped b (numbered s.groups (parallels (step :: steps))) := by
    have hparallels (steps : List Step) : parallels (step :: steps) = parallels steps :=
      List.filterMap_cons_none hnone
    simp only [hparallels]
    exact h
  cases h with
  | skipped hskip hs =>
    refine none_opened ?_ (.of_eq hs.handed hs.groups rfl)
    by_cases hk : step.kind = .parallel
    · rw [Step.isSkipped, hk, Option.isNone_iff_eq_none] at hskip
      rw [Step.group?, if_pos hk, hskip, Option.filter_none]
    · exact group?_of_kind hk
  | assignments hk hc hb run =>
    exact none_opened (group?_of_kind (by simp [hk]))
      (.of_binds (bindingsBlock_binds run) (bindingsBlock_groupless run))
  | importing hk hc hp run =>
    exact none_opened (group?_of_kind (by simp [hk]))
      (.of_binds (importBlock_binds run) (importBlock_groupless run))
  | transform hk hr hc hb =>
    exact none_opened (group?_of_kind (by simp [hk]))
      (.of_binds hb (by simp [Item.isGroupless, Statement.isJoin]))
  | call hk hr hc hb | query hk hr hc hg hb | use hk hc hb | perform hk hr hc hg hb =>
    exact none_opened (group?_of_kind (by simp [hk])) (.of_binds hb rfl)
  | conditional hk hc he hb hn =>
    exact none_opened (group?_of_kind (by simp [hk])) (((hnested _ hn).filled.block (by simp)).after hb)
  | alternative hk hc he hb hy hn =>
    exact none_opened (group?_of_kind (by simp [hk]))
      ((((hnested _ hy).filled.block (by simp)).append ((hnested _ hn).filled.block (by simp))).after hb)
  | forEach hk hr hc hl hi hb hn | forIndexed hk hr hc hl hi hb hn | counted hk hr hc hl hb hn =>
    exact none_opened (group?_of_kind (by simp [hk])) (((hnested _ hn).filled.block (by simp)).after hb)
  | @bounded loop bound condition body _ s₁ _ hk hr hc hl hb hn =>
    have hstart : Numbers s [.line (.start (counterOf s.scope loop))] s₁ := .of_binds hb rfl
    have hcount : Numbers s' [.line (.increment (counterOf s.scope loop))] s' := .of_eq rfl rfl rfl
    exact none_opened (group?_of_kind (by simp [hk]))
      (hstart.append (((hnested _ hn).append hcount).block (by simp)))
  | guarded hk hc hb hn hh hf =>
    exact none_opened (group?_of_kind (by simp [hk]))
      ((((hnested _ hn).filled.block (by simp)).append
        ((hh.numbers hnested).append (hf.numbers hnested))).after hb)
  | emptyGroup hk hr hc he hb =>
    refine none_opened ?_ (.of_binds hb rfl)
    simp [Step.group?, hk, hr, he]
  | @group parallel named functions _ s₁ s₂ s₃ _ hk hr hc he hbranches ho hh hf hb =>
    obtain ⟨laid, steps, rfl, hnames, hbodies, hhanded, hgroups, hinner⟩ := hf.numbers hnested
    have hgroup : step.group? = some parallel := by
      simp [Step.group?, hk, hr, Option.filter_some, he]
    have hparallels : parallels (step :: steps) = parallel :: parallels steps :=
      List.filterMap_cons_some hgroup
    have hcalls : named.map (fun branch => branchFunction s₁.groups branch.index) =
        Group.functions ⟨s₁.groups, parallel⟩ := by
      rw [Group.functions, ← nameBranches_index hbranches, List.map_map]
      rfl
    have hlaid : Grouped (laid.flatMap (fun f => functionItems (f.name, f.body)) ++
        [.line (Group.join ⟨s₁.groups, parallel⟩)])
        (⟨s₁.groups, parallel⟩ :: laid.flatMap (·.inner) ++ []) :=
      .group (hnames.trans hcalls) hbodies .nil
    refine ⟨steps, ?_, ?_, ?_⟩
    · rw [hb.handed, hhanded, hh.handed, ho.handed]
    · rw [hb.groups, hgroups, hh.groups, ho.groups, hparallels, List.length_cons]
      omega
    · rw [hparallels, numbered_cons, hcalls]
      have hnumber : numbered (s.groups + 1) (parallels steps) = laid.flatMap (·.inner) := by
        rw [hinner, hh.groups, ho.groups]
      rw [List.append_nil] at hlaid
      rw [hnumber, List.append_assoc, ← ho.groups]
      exact (grouped_of_groupless (groupless_hoisted _)).append hlaid

theorem flowBlock_numbering (levels : Nat) (flow : Flow) : Numbering (flowBlock ctx levels flow) := by
  induction levels generalizing flow with
  | zero =>
    intro s b s' h
    obtain ⟨⟨text, rfl⟩, hb⟩ := flowBlock_zero_run h
    exact .of_binds hb rfl
  | succ levels ih =>
    refine Numbering.each fun entry _ s b s' h => ?_
    obtain ⟨step, -, hrun⟩ | ⟨-, ⟨text, rfl⟩, hskips⟩ := entry_run h
    · -- The step itself is handed before its rule runs.
      obtain ⟨steps, hhanded, hgroups, hblock⟩ := hrun.numbers ih
      exact ⟨step :: steps, by rw [hhanded, List.append_assoc, List.singleton_append], hgroups, hblock⟩
    · exact .of_eq hskips.handed hskips.groups rfl

end Steps

/-! ## Documents -/

section Documents

variable {ctx : Context}

theorem flowAt_numbering (level : Int) (flow : Flow) : Numbering (flowAt ctx level flow) := by
  intro s b s' h
  simp only [flowAt, runs_bind, runs_lift] at h
  obtain ⟨levels, _, ⟨-, rfl⟩, h⟩ := h
  exact flowBlock_numbering levels flow h

theorem documentImport_numbering (entry : Value) : Numbering (documentImport ctx entry) := by
  intro s b s' h
  obtain ⟨names, hbinds⟩ := documentImport_binds h
  refine .of_binds hbinds ?_
  unfold documentImport at h
  split at h
  · unfold entryBlock at h
    split_ifs at h
    · obtain ⟨name, t, -, h⟩ := runs_bind.mp h
      cases name with
      | none => exact importBlock_groupless h
      | some bound =>
        simp only [runs_bind, runs_pure] at h
        obtain ⟨_, _, -, _, _, -, rfl, -⟩ := h
        rfl
    · exact importBlock_groupless h
  · simp only [runs_bind, runs_pure] at h
    obtain ⟨_, _, -, _, _, -, rfl, -⟩ := h
    rfl

theorem outputBlock_numbering (output : Value) : Numbering (outputBlock ctx output) := by
  intro s b s' h
  refine .of_binds (outputBlock_quiet output h) ?_
  simp only [outputBlock] at h
  split_ifs at h
  · obtain ⟨rfl, -⟩ := runs_pure.mp h
    rfl
  · simp only [runs_bind, runs_pure] at h
    obtain ⟨_, _, -, rfl, -⟩ := h
    rfl
  · split at h
    · simp only [runs_bind, runs_pure] at h
      obtain ⟨_, _, -, _, _, -, rfl, -⟩ := h
      rfl
    · simp only [runs_bind, runs_pure] at h
      obtain ⟨_, _, -, _, _, -, rfl, -⟩ := h
      rfl

theorem taskFlowBlock_numbering (task : Value) (name : String) (flow : Flow) :
    Numbering (taskFlowBlock ctx task name flow) := by
  intro s b s' h
  unfold taskFlowBlock at h
  split at h
  · simp only [runs_bind, runs_pure] at h
    obtain ⟨_, _, hr, body, _, hbody, rfl, rfl⟩ := h
    have hhandler : Numbers s' [.line (.evaluate ("logger.warning(\"Task %s failed: %s\", " ++
        Text.quote name ++ ", _task_error)"))] s' := .of_eq rfl rfl rfl
    exact (((flowAt_numbering _ _ hbody).filled.block (by simp)).append
      (hhandler.block (by simp))).after (Quiet.requireHelper _ hr)
  · exact flowAt_numbering _ _ h

theorem taskBlock_numbering (total : Nat) (task : Value × Nat) : Numbering (taskBlock ctx total task) := by
  intro s b s' h
  have htitle (s : State) : Numbers s (taskTitle (taskName task.1 task.2) task.2 total) s := by
    refine .of_eq rfl rfl ?_
    unfold taskTitle
    split_ifs <;> rfl
  simp only [taskBlock] at h
  split at h
  · simp only [runs_bind, runs_pure] at h
    obtain ⟨_, _, hw, rfl, rfl⟩ := h
    exact (htitle _).append (.of_binds (Quiet.warn _ hw) rfl)
  · simp only [runs_bind, runs_pure] at h
    obtain ⟨body, _, hbody, output, _, houtput, rfl, rfl⟩ := h
    exact ((htitle _).append (taskFlowBlock_numbering _ _ _ hbody)).append (outputBlock_numbering _ houtput)

/-- The groups of a program are those of the steps that were handed to their rules, in order. -/
theorem documentBlock_numbering (document : Fields) : Numbering (documentBlock ctx document) := by
  intro s b s' h
  simp only [documentBlock, prologue, documentImports, runs_bind, runs_pure] at h
  obtain ⟨first, t, ⟨imports, u, hi, globals, _, hg, rfl, rfl⟩, body, _, hbody, rfl, rfl⟩ := h
  have himports := Numbering.each (fun entry _ => documentImport_numbering entry) hi
  have hglobals : Numbers u globals t := .of_binds (bindingsBlock_binds hg) (bindingsBlock_groupless hg)
  refine Numbers.append ?_ (Numbering.each (fun task _ => taskBlock_numbering _ task) hbody)
  split_ifs with hempty
  · rw [← List.isEmpty_iff.mp hempty]
    exact himports.append hglobals
  · exact (himports.append hglobals).append (.of_eq rfl rfl rfl)

end Documents

end Program

open Program Program.Pass

/-- The functions of a compiled program have different names. They stand in groups, one for each parallel
step with branches that was handed to its rule, and every group is followed at its own level by the one
line that calls its functions in the order of the branches. A merging group stores as many results as it
has functions, and any other none. In the lines of the program a group is one piece: its functions, each under its
name and with lines of its own, and then the call. -/
theorem branches_joined_once {tree : File.Tree} {settings : Settings} {request : Compilation.Request}
    {compilation : Compilation} (h : compile tree settings request = .ok compilation) :
    ∃ loaded fields block state, request.source.load tree settings = .ok loaded ∧
      loaded.document.fields? = some fields ∧
      (documentBlock (request.context settings) fields).run {} = .ok (block, state) ∧
      LaysOut (request.context settings) (filled block) compilation.code ∧
      (blockFunctions (filled block)).Nodup ∧
      Grouped (filled block) (numbered 0 (parallels state.handed)) ∧
      ∀ group ∈ numbered 0 (parallels state.handed),
        group.functions.length = group.parallel.branches.length ∧
        (group.parallel.outputs.length = if group.parallel.merges then group.functions.length else 0) ∧
        ∀ margin, ∃ level functions, functions.map Prod.fst = group.functions ∧
          group.lines margin level functions <:+: (filled block).lines margin 1 := by
  obtain ⟨loaded, fields, block, state, hloaded, hfields, hrun, hcode⟩ := compile_eq_ok h
  obtain ⟨steps, hhanded, -, hblock⟩ := (documentBlock_numbering fields hrun).filled
  have hgrouped : Grouped (filled block) (numbered 0 (parallels state.handed)) := by
    rw [hhanded]
    exact hblock
  refine ⟨loaded, fields, block, state, hloaded, hfields, hrun, hcode, ?_, hgrouped, fun group hgroup => ?_⟩
  · exact hgrouped.functions_perm.nodup_iff.mpr (nodup_numbered 0 _)
  · have hlength : group.functions.length = group.parallel.branches.length := by simp [Group.functions]
    exact ⟨hlength, by rw [hlength, Parallel.length_outputs], fun margin => hgrouped.infix_lines margin 1 hgroup⟩

/-- Two tasks, of which the first has a merging group in a branch of a group. -/
def groupedTasks : Fields :=
  [(.text "tasks", .list
    [.map [(.text "name", .text "t"), (.text "flow", .list nestedGroups)],
     .map [(.text "name", .text "u"), (.text "flow", .list
       [.map [(.text "parallel", .map [(.text "tasks", .list [.map [], .map []])])]])]])]

theorem groupedTasks_joined_once :
    ∃ compilation block state,
      compile { here := ⟨true, [], false⟩ } {}
        { source := .value (.map groupedTasks), template := .text "module" } = .ok compilation ∧
      (documentBlock {} groupedTasks).run {} = .ok (block, state) ∧
      blockFunctions (filled block) = ["_parallel_1_branch_0", "_parallel_2_branch_0",
        "_parallel_3_branch_0", "_parallel_3_branch_1"] ∧
      (blockFunctions (filled block)).Nodup ∧
      (numbered 0 (parallels state.handed)).map Group.joinText =
        ["await _gather_all(_parallel_1_branch_0())", "x = (await _gather_all(_parallel_2_branch_0()))[0]",
          "await _gather_all(_parallel_3_branch_0(), _parallel_3_branch_1())"] ∧
      Grouped (filled block) (numbered 0 (parallels state.handed)) := by
  have hok : (compile { here := ⟨true, [], false⟩ } {}
      { source := .value (.map groupedTasks), template := .text "module" }).toOption.isSome = true := by
    decide +kernel
  have hshape : ((documentBlock {} groupedTasks).run {}).toOption.map (fun r =>
      (blockFunctions (filled r.1), (numbered 0 (parallels r.2.handed)).map Group.joinText)) =
      some (["_parallel_1_branch_0", "_parallel_2_branch_0", "_parallel_3_branch_0", "_parallel_3_branch_1"],
        ["await _gather_all(_parallel_1_branch_0())", "x = (await _gather_all(_parallel_2_branch_0()))[0]",
        "await _gather_all(_parallel_3_branch_0(), _parallel_3_branch_1())"]) := by decide +kernel
  cases hc : compile { here := ⟨true, [], false⟩ } {}
      { source := .value (.map groupedTasks), template := .text "module" } with
  | error e => simp [hc, Except.toOption] at hok
  | ok compilation =>
    obtain ⟨loaded, fields, block, state, hloaded, hfields, hrun, -, hdistinct, hgrouped, -⟩ :=
      branches_joined_once hc
    obtain rfl := Except.ok.inj hloaded
    obtain rfl := Option.some.inj hfields
    have hrun' : (documentBlock {} groupedTasks).run {} = .ok (block, state) := hrun
    rw [hrun'] at hshape
    obtain ⟨hfunctions, hjoins⟩ := Prod.mk.inj (Option.some.inj hshape)
    exact ⟨compilation, block, state, rfl, hrun', hfunctions, hdistinct, hjoins, hgrouped⟩

end FlowScript
