import FlowScript.Program.Margin
import FlowScript.Proofs.Step

/-!
# Nesting of generated lines

The lines of a flow follow its block item by item: a statement or a comment is one line at the level of
the block, and a header is followed by the lines of its body one level deeper, of which there is at least
one. Lines without any text only set the functions of a parallel group apart.
-/
namespace FlowScript.Program

open Construct Pass

/-- The words that begin the line of a header. -/
def openers : List String :=
  ["if ", "else", "for ", "while ", "try", "except ", "finally", "async def "]

/-- The lines of a function of a parallel group, set off from what follows. -/
def functionLines (margin : Margin) (level : Int) (function : String) (inner : List String) :
    List String :=
  (margin level ++ (Header.branch function).code) :: (inner ++ [""])

/-- The lines of a block at a level, item by item. -/
inductive WellNested (margin : Margin) : Int → Block → List String → Prop where
  | nil {level : Int} : WellNested margin level [] []
  | line {level : Int} {statement : Statement} {b : Block} {lines : List String}
      (htext : margin level ++ statement.code ≠ "") (hrest : WellNested margin level b lines) :
      WellNested margin level (.line statement :: b) ((margin level ++ statement.code) :: lines)
  | comment {level : Int} {text : String} {b : Block} {lines : List String}
      (hrest : WellNested margin level b lines) :
      WellNested margin level (.comment text :: b) ((margin level ++ "# " ++ text) :: lines)
  | block {level : Int} {header : Header} {body b : Block} {inner lines : List String}
      (hopens : ∃ word ∈ openers, ∃ rest, header.code = word ++ rest) (hne : inner ≠ [])
      (hbody : WellNested margin (level + 1) body inner) (hrest : WellNested margin level b lines) :
      WellNested margin level (.block header body :: b)
        ((margin level ++ header.code) :: (inner ++ lines))
  /-- Hoisted names, the functions of a parallel group and what runs them together. -/
  | group {level : Int} {hoisted outputs calls : List String}
      {functions : List (String × Block × List String)} {b : Block} {lines : List String}
      (hsome : functions ≠ []) (hne : ∀ f ∈ functions, f.2.2 ≠ [])
      (hbody : ∀ f ∈ functions, WellNested margin (level + 1) f.2.1 f.2.2)
      (hrest : WellNested margin level b lines) :
      WellNested margin level
        (hoisted.map (fun n => .line (.hoist n)) ++ (if hoisted.isEmpty then [] else [.blank]) ++
          functions.flatMap (fun f => [.block (.branch f.1) f.2.1, .blank]) ++
          .line (.join outputs calls) :: b)
        (hoisted.map (fun n => margin level ++ (Statement.hoist n).code) ++
          (if hoisted.isEmpty then [] else [""]) ++
          functions.flatMap (fun f => functionLines margin level f.1 f.2.2) ++
          (margin level ++ (Statement.join outputs calls).code) :: lines)

/-- Every header begins with one of the words. -/
theorem Header.opens (header : Header) : ∃ word ∈ openers, ∃ rest, header.code = word ++ rest := by
  have begins {word text : String} (h : ∃ rest, text = word ++ rest) (more : String) :
      ∃ rest, text ++ more = word ++ rest := by
    obtain ⟨rest, rfl⟩ := h
    exact ⟨rest ++ more, String.append_assoc⟩
  cases header with
  | run agent => exact ⟨"async def ", by simp [openers], begins (begins ⟨"run_flow(", by decide⟩ _) _⟩
  | whenTrue condition => exact ⟨"if ", by simp [openers], begins ⟨condition, rfl⟩ _⟩
  | otherwise => exact ⟨"else", by simp [openers], ":", by decide⟩
  | forEach index item items =>
    cases index with
    | none => exact ⟨"for ", by simp [openers], begins (begins (begins ⟨item, rfl⟩ _) _) _⟩
    | some index =>
      refine ⟨"for ", by simp [openers], ?_⟩
      exact begins (begins (begins (begins (begins ⟨index, rfl⟩ _) _) _) _) _
  | counted index count =>
    exact ⟨"for ", by simp [openers], begins (begins (begins ⟨index, rfl⟩ _) _) _⟩
  | bounded counter bound condition =>
    refine ⟨"while ", by simp [openers], ?_⟩
    exact begins (begins (begins (begins (begins ⟨counter, rfl⟩ _) _) _) _) _
  | attempt => exact ⟨"try", by simp [openers], ":", by decide⟩
  | handle name =>
    cases name with
    | none => exact ⟨"except ", by simp [openers], "Exception:", by decide⟩
    | some name =>
      exact ⟨"except ", by simp [openers], begins (begins ⟨"Exception as ", by decide⟩ _) _⟩
  | cleanup => exact ⟨"finally", by simp [openers], ":", by decide⟩
  | branch function => exact ⟨"async def ", by simp [openers], begins ⟨function, rfl⟩ _⟩

/-! ## Lines of blocks -/

section Lines

variable {margin : Margin} {level : Int} {a b : Block}

theorem lines_append : (a ++ b).lines margin level = a.lines margin level ++ b.lines margin level := by
  unfold Block.lines
  induction a with
  | nil => simp [blockLines]
  | cons item items ih => rw [List.cons_append, blockLines, ih, blockLines, List.append_assoc]

theorem lines_cons (item : Item) : Block.lines margin level (item :: b) =
    item.lines margin level ++ b.lines margin level := by
  rw [Block.lines, blockLines, Block.lines]

theorem WellNested.append {lines more : List String} (ha : WellNested margin level a lines)
    (hb : WellNested margin level b more) : WellNested margin level (a ++ b) (lines ++ more) := by
  induction ha with
  | nil => exact hb
  | line htext _ ih => exact .line htext (ih hb)
  | comment _ ih => exact .comment (ih hb)
  | block hopens hne hbody _ _ ih =>
    rw [List.cons_append, List.cons_append, List.append_assoc]
    exact .block hopens hne hbody (ih hb)
  | group hsome hne hbody _ _ ih =>
    rw [List.append_assoc _ _ b, List.append_assoc _ _ more]
    exact .group hsome hne hbody (ih hb)

end Lines

/-- At every level, with any indentation that is nowhere empty from there on, the lines of a block are
well nested. -/
def Nests (b : Block) : Prop :=
  ∀ (margin : Margin) (level : Int), (∀ l, level ≤ l → margin l ≠ "") →
    WellNested margin level b (b.lines margin level)

section Nests

variable {a b body : Block}

theorem Nests.append (ha : Nests a) (hb : Nests b) : Nests (a ++ b) := by
  intro margin level hmargin
  rw [lines_append]
  exact (ha margin level hmargin).append (hb margin level hmargin)

theorem nests_nil : Nests [] := fun _ _ _ => .nil

theorem nests_line (statement : Statement) : Nests [.line statement] := by
  intro margin level hmargin
  refine .line (fun hempty => hmargin level (Int.le_refl _) ?_) .nil
  exact (String.append_eq_empty_iff.mp hempty).1

/-- A function of a parallel group, set off from what follows. -/
def functionItems (function : String × Block) : Block :=
  [.block (.branch function.1) function.2, .blank]

theorem lines_functionItems (margin : Margin) (level : Int) (functions : List (String × Block)) :
    Block.lines margin level (functions.flatMap functionItems) = functions.flatMap fun f =>
      functionLines margin level f.1 (f.2.lines margin (level + 1)) := by
  induction functions with
  | nil => simp [Block.lines, blockLines]
  | cons f rest ih =>
    have hfirst : Block.lines margin level (functionItems f) =
        functionLines margin level f.1 (f.2.lines margin (level + 1)) := by
      simp [functionItems, functionLines, Block.lines, blockLines, Item.lines]
    rw [List.flatMap_cons, lines_append, ih, hfirst, List.flatMap_cons]

end Nests

/-! ## Flows -/

section Flows

variable {ctx : Context} {nested : Flow → Pass Block} {step : Step} {b : Block} {s s' : State}

theorem branchEnd_spec {merges : Bool} {flow : Flow} {names : List String} {body ending : Block}
    (h : (branchEnd merges flow names body).Runs s ending s') :
    Nests ending ∧ branchHeader names ++ body ++ ending ≠ [] := by
  unfold branchEnd at h
  split_ifs at h with hmerges hempty
  · simp only [runs_bind, runs_pure] at h
    obtain ⟨last, -, -, rfl, -⟩ := h
    exact ⟨nests_line _, by simp⟩
  · obtain ⟨rfl, -⟩ := runs_pure.mp h
    exact ⟨nests_line _, by simp⟩
  · obtain ⟨rfl, -⟩ := runs_pure.mp h
    refine ⟨nests_nil, ?_⟩
    cases names with
    | nil => simpa [branchHeader] using hempty
    | cons name rest => simp [branchHeader]

theorem nests_branchHeader (names : List String) : Nests (branchHeader names) := by
  unfold branchHeader
  split_ifs
  · exact nests_nil
  · exact nests_line _

theorem BranchesRun.functions {merges : Bool} {group : Nat} {named : List NamedBranch}
    (h : BranchesRun nested merges group named s b s')
    (hnested : ∀ flow s b s', (nested flow).Runs s b s' → Nests b) :
    ∃ functions : List (String × Block), b = functions.flatMap functionItems ∧
      functions.length = named.length ∧ (∀ f ∈ functions, f.2 ≠ []) ∧ ∀ f ∈ functions, Nests f.2 := by
  induction h with
  | nil => exact ⟨[], rfl, rfl, by simp, by simp⟩
  | @cons branch rest body ending others s t s' hn he _ ih =>
    obtain ⟨functions, rfl, hlength, hne, hnests⟩ := ih
    obtain ⟨hending, hbody⟩ := branchEnd_spec he
    have hfirst := ((nests_branchHeader branch.names).append (hnested _ _ _ _ hn)).append hending
    refine ⟨(branchFunction group branch.index, branchHeader branch.names ++ body ++ ending) :: functions,
      rfl, by simp [hlength], ?_, ?_⟩
    · exact List.forall_mem_cons.mpr ⟨hbody, hne⟩
    · exact List.forall_mem_cons.mpr ⟨hfirst, hnests⟩

end Flows

theorem copies_ne_empty {indent : String} (h : indent ≠ "") {level : Int} (hlevel : 1 ≤ level) :
    Margin.copies indent level ≠ "" := by
  obtain ⟨n, hn⟩ : ∃ n, level.toNat = n + 1 := ⟨level.toNat - 1, by omega⟩
  rw [Margin.copies, hn, List.replicate_succ, String.join_cons]
  exact fun hempty => h (String.append_eq_empty_iff.mp hempty).1

/-- A loop on a condition around a group of two branches, of which the second is empty. -/
def roundsOfBranches : Flow :=
  [.map [(.text "loop", .map [(.text "type", .text "while"), (.text "condition", .text "more"),
    (.text "flow", .list [.map [(.text "parallel", .map [(.text "tasks", .list [
      .map [(.text "flow", .list [.map [(.text "variables", .map [(.text "v", .int 1)])]])],
      .map [(.text "flow", .list [])]])])]])])]]

def tabbed : Context := { settings := { indent := .text "\t" } }

/-- What is generated for it at the second level. -/
def roundsLines : List String :=
  ["\t\t_while_iter = 0",
    "\t\twhile _while_iter < 100 and await agent.ai_boolean('more'):",
    "\t\t\tv = None",
    "",
    "\t\t\tasync def _parallel_1_branch_0():",
    "\t\t\t\tnonlocal v",
    "\t\t\t\tv = 1",
    "",
    "\t\t\tasync def _parallel_1_branch_1():",
    "\t\t\t\tpass",
    "",
    "\t\t\tawait _gather_all(_parallel_1_branch_0(), _parallel_1_branch_1())",
    "\t\t\t_while_iter += 1"]

end FlowScript.Program
