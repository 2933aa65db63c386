import FlowScript.Program.Document
import FlowScript.Proofs.OneLine

/-!
# Comments

What cannot be compiled is quoted in a comment. Everything that a rule quotes is spelled on one line, so
such a comment stays a comment whatever the author wrote. The title of a task is the exception: it holds
the name of the task as it is.
-/
namespace FlowScript.Program

open Construct Pass Text

/-! ## The comments of a block -/

mutual

/-- The comments of an item at a level, each with its own level. -/
def Item.comments (level : Int) : Item → List (Int × String)
  | .line _ => []
  | .comment text => [(level, text)]
  | .blank => []
  | .block _ body => blockComments (level + 1) body

def blockComments (level : Int) : List Item → List (Int × String)
  | [] => []
  | item :: items => item.comments level ++ blockComments level items

end

/-- The lines that the comments of a block are written on. -/
def commentLines (margin : Margin) (level : Int) (block : Block) : List String :=
  (blockComments level block).map fun c => margin c.1 ++ "# " ++ c.2

mutual

theorem Item.map_comments_sublist (margin : Margin) (level : Int) (item : Item) :
    ((item.comments level).map fun c => margin c.1 ++ "# " ++ c.2).Sublist (item.lines margin level) := by
  cases item with
  | line | blank =>
    rw [Item.comments]
    exact List.nil_sublist _
  | comment text =>
    rw [Item.comments, Item.lines]
    exact List.Sublist.refl _
  | block header body =>
    rw [Item.comments, Item.lines]
    exact (commentLines_sublist margin (level + 1) body).cons _

/-- The comment lines are lines of the block, in order. -/
theorem commentLines_sublist (margin : Margin) (level : Int) (block : List Item) :
    (commentLines margin level block).Sublist (blockLines margin level block) := by
  match block with
  | [] =>
    rw [commentLines, blockComments]
    exact List.nil_sublist _
  | item :: items =>
    rw [commentLines, blockComments, blockLines, List.map_append]
    exact (item.map_comments_sublist margin level).append (commentLines_sublist margin level items)

end

/-- All comments of a block have a property. -/
def Commented (Q : String → Prop) (block : Block) : Prop :=
  ∀ level, ∀ c ∈ blockComments level block, Q c.2

section Commented

variable {Q : String → Prop} {a b : Block}

@[simp] theorem commented_nil : Commented Q [] := by
  intro level c hc
  cases hc

@[simp] theorem commented_line (statement : Statement) : Commented Q (.line statement :: b) ↔ Commented Q b :=
  Iff.rfl

@[simp] theorem commented_blank : Commented Q (.blank :: b) ↔ Commented Q b := Iff.rfl

@[simp] theorem commented_comment (text : String) :
    Commented Q (.comment text :: b) ↔ Q text ∧ Commented Q b := by
  have hcomments (level : Int) :
      blockComments level (.comment text :: b) = (level, text) :: blockComments level b := rfl
  simp only [Commented, hcomments, List.forall_mem_cons]
  exact ⟨fun h => ⟨(h 0).1, fun level => (h level).2⟩, fun h level => ⟨h.1, h.2 level⟩⟩

theorem blockComments_append (level : Int) :
    blockComments level (a ++ b) = blockComments level a ++ blockComments level b := by
  induction a with
  | nil => rfl
  | cons item items ih => rw [List.cons_append, blockComments, ih, blockComments, List.append_assoc]

@[simp] theorem commented_append : Commented Q (a ++ b) ↔ Commented Q a ∧ Commented Q b := by
  simp only [Commented, blockComments_append, List.forall_mem_append, forall_and]

@[simp] theorem commented_block (header : Header) :
    Commented Q (.block header a :: b) ↔ Commented Q a ∧ Commented Q b := by
  have hcomments (level : Int) :
      blockComments level (.block header a :: b) = blockComments (level + 1) a ++ blockComments level b := rfl
  simp only [Commented, hcomments, List.forall_mem_append, forall_and]
  refine and_congr_left fun _ => ⟨fun h level => ?_, fun h level => h (level + 1)⟩
  have hlevel := h (level - 1)
  rwa [Int.sub_add_cancel] at hlevel

@[simp] theorem commented_filled : Commented Q (filled b) ↔ Commented Q b := by
  cases b <;> simp [filled]

end Commented

namespace Pass

/-! ## What a pass ensures -/

/-- Every result of a pass has a property. -/
def Ensures {α : Type} (P : α → Prop) (p : Pass α) : Prop :=
  ∀ ⦃s : State⦄ ⦃a : α⦄ ⦃s' : State⦄, p.Runs s a s' → P a

namespace Ensures

variable {α β : Type} {P : β → Prop}

protected theorem pure {b : β} (h : P b) : Ensures P (pure b) := by
  intro s c s' hrun
  obtain ⟨rfl, -⟩ := runs_pure.mp hrun
  exact h

/-- What is known of a first result may be used for the second. -/
protected theorem bind {R : α → Prop} {q : Pass α} {f : α → Pass β} (hq : Ensures R q)
    (hf : ∀ a, R a → Ensures P (f a)) : Ensures P (q >>= f) := by
  intro s b s' h
  obtain ⟨a, t, h₁, h₂⟩ := runs_bind.mp h
  exact hf a (hq h₁) h₂

protected theorem after {q : Pass α} {f : α → Pass β} (hf : ∀ a, Ensures P (f a)) : Ensures P (q >>= f) :=
  .bind (R := fun _ => True) (fun _ _ _ _ => trivial) fun a _ => hf a

protected theorem lift {e : Except Fault β} (h : ∀ b, e = .ok b → P b) : Ensures P (liftM e : Pass β) := by
  intro s b s' hrun
  exact h b (runs_lift.mp hrun).1

protected theorem ite {c : Prop} [Decidable c] {p q : Pass β} (hp : Ensures P p) (hq : Ensures P q) :
    Ensures P (if c then p else q) := by
  split_ifs
  · exact hp
  · exact hq

end Ensures

/-- Every comment of a pass is on one line. -/
abbrev Inert (p : Pass Block) : Prop := Ensures (Commented OneLine) p

theorem Inert.each {α : Type} {f : α → Pass Block} (entries : List α) (hf : ∀ entry, Inert (f entry)) :
    Inert (each f entries) := by
  induction entries with
  | nil => exact .pure commented_nil
  | cons entry rest ih =>
    refine .bind (hf entry) fun first hfirst => .bind ih fun others hothers => .pure ?_
    exact commented_append.mpr ⟨hfirst, hothers⟩

theorem jsonOf_ensures (v : Value) : Ensures OneLine (jsonOf v) := .lift fun _ h => v.json_oneLine h

theorem skip_inert {reason : String} (h : OneLine reason) (entry : Value) : Inert (skip reason entry) := by
  refine .bind (jsonOf_ensures entry) fun quoted hquoted => .after fun _ => .after fun _ => .pure ?_
  have hcolon : OneLine ": " := oneLine_literal rfl
  simp [h, hcolon, hquoted]

end Pass

/-! ## Steps without flows -/

variable {ctx : Context}

theorem bindingsBlock_inert (bindings : Fields) : Inert (bindingsBlock ctx bindings) := by
  have hfront : OneLine "Skipped variable " := oneLine_literal rfl
  have hback : OneLine ": not a valid identifier" := oneLine_literal rfl
  refine .each _ fun entry => ?_
  unfold bindingBlock
  split
  · exact .after fun _ => .after fun _ => .pure (by simp)
  · refine .bind (.lift fun _ => Value.spelled_oneLine) fun spelled hspelled => .after fun _ => .pure ?_
    simp [hfront, hspelled, hback]

theorem importBlock_inert (imported : Import) (path : String) : Inert (importBlock ctx imported path) := by
  refine .after fun _ => .after fun name => ?_
  cases name with
  | some bound => exact .after fun _ => .after fun _ => .pure (by simp)
  | none =>
    refine .ite ?_ ?_
    · exact .after fun _ => .pure (by simp)
    · exact .after fun _ => .after fun _ => .pure (by simp)

theorem documentImport_inert (entry : Value) : Inert (documentImport ctx entry) := by
  have hfront : OneLine "Skipped invalid import entry: " := oneLine_literal rfl
  unfold documentImport
  split
  · refine .ite (.after fun name => ?_) (importBlock_inert _ _)
    cases name with
    | some bound => exact .after fun _ => .after fun _ => .pure (by simp)
    | none => exact importBlock_inert _ _
  · refine .bind (jsonOf_ensures entry) fun quoted hquoted => .after fun _ => .pure ?_
    simp [hfront, hquoted]

theorem stagesBlock_inert (output data : String) (stages : List Stage) :
    Inert (stagesBlock ctx output data stages) := by
  induction stages generalizing data with
  | nil => exact .pure commented_nil
  | cons stage rest ih => exact .after fun _ => .bind (ih output) fun others hothers => .pure (by simpa using hothers)

theorem unknownOperation_inert (entry : Value) : Inert (unknownOperation entry) := by
  have hfront : OneLine "Skipped unrecognized operation: " := oneLine_literal rfl
  refine .bind (jsonOf_ensures entry) fun quoted hquoted => .after fun _ => .pure ?_
  simp [hfront, hquoted]

theorem transformBlock_inert (step : Step) : Inert (transformBlock ctx step) := by
  refine .after fun transform => ?_
  cases transform with
  | none => exact skip_inert (oneLine_literal rfl) _
  | some transform =>
    refine .after fun output => .after fun source => ?_
    refine .bind (Inert.each _ unknownOperation_inert) fun comments hcomments => .after fun _ => .ite ?_ ?_
    · exact .pure (by simpa using hcomments)
    · refine .bind (stagesBlock_inert _ _ _) fun assignments hassignments => .pure ?_
      exact commented_append.mpr ⟨hcomments, hassignments⟩

theorem useBlock_inert (step : Step) : Inert (useBlock ctx step) := by
  unfold useBlock
  dsimp only
  split
  · exact skip_inert (oneLine_literal rfl) _
  · refine .after fun _ => ?_
    split
    · exact .after fun _ => .after fun _ => .pure (by simp)
    · refine .ite ?_ ?_
      · exact .after fun _ => .after fun _ => .pure (by simp)
      · exact .after fun _ => .after fun _ => .pure (by simp)

theorem callBlock_inert (step : Step) : Inert (callBlock ctx step) := by
  have hbind (call : Call) (expression : Pass String) : Inert (bindCall call expression) :=
    .after fun _ => .after fun _ => .after fun _ => .pure (by simp)
  refine .after fun call => ?_
  cases call with
  | none => exact skip_inert (oneLine_literal rfl) _
  | some call => exact .ite (hbind _ _) (.ite (hbind _ _) (skip_inert (oneLine_literal rfl) _))

theorem actionBlock_inert (step : Step) : Inert (actionBlock ctx step) := by
  have hpause (duration : Value) : Inert (pause ctx duration) := by
    refine .after fun _ => .after fun seconds => ?_
    cases seconds with
    | some seconds => exact .pure (by simp)
    | none => exact .after fun _ => .pure (by simp)
  unfold actionBlock
  split
  · exact skip_inert (oneLine_literal rfl) _
  · refine .ite (hpause _) (.after fun _ => ?_)
    dsimp only
    split
    · exact .pure (by simp)
    · exact .after fun _ => .after fun _ => .pure (by simp)

theorem hoist_inert (names : List String) : Inert (hoist names) := by
  induction names with
  | nil => exact .pure commented_nil
  | cons name rest ih =>
    refine .after fun _ => .after fun _ => .bind ih fun others hothers => .pure ?_
    split
    · exact hothers
    · exact (commented_line _).mpr hothers

/-! ## Steps with flows -/

section Nested

variable {nested : Flow → Pass Block} (hnested : ∀ flow, Inert (nested flow))

include hnested

/-- A flow may be put below a header. -/
theorem below_inert {g : Block → Block} (hg : ∀ b, Commented OneLine b → Commented OneLine (g b)) (flow : Flow) :
    Inert (do
      let body ← nested flow
      return g body) :=
  .bind (hnested flow) fun body hbody => .pure (hg body hbody)

theorem conditionalBlock_inert (step : Step) : Inert (conditionalBlock ctx nested step) := by
  refine .ite (skip_inert (oneLine_literal rfl) _) (.after fun condition => ?_)
  refine .bind (hnested _) fun yes hyes => .ite (.pure (by simpa using hyes)) ?_
  exact below_inert hnested (fun no hno => by simp [hyes, hno]) _

theorem forBlock_inert (loop : Loop) : Inert (forBlock ctx nested loop) := by
  refine .after fun items => .after fun item => .after fun _ => .ite ?_ (.after fun index => .after fun _ => ?_)
  · exact below_inert hnested (by simp) _
  · exact below_inert hnested (by simp) _

theorem whileBlock_inert (loop : Loop) : Inert (whileBlock ctx nested loop) := by
  refine .after fun counter => .ite ?_ ?_
  · exact .after fun bound => .after fun condition => below_inert hnested (by simp) _
  · exact .after fun bound => .after fun condition => below_inert hnested (by simp) _

theorem repeatBlock_inert (loop : Loop) : Inert (repeatBlock ctx nested loop) := by
  refine .ite ?_ ?_
  · exact .after fun index => .after fun _ => .after fun count => below_inert hnested (by simp) _
  · exact .after fun index => .after fun _ => .after fun count => below_inert hnested (by simp) _

theorem loopBlock_inert (step : Step) : Inert (loopBlock ctx nested step) := by
  have hmissing {kind field : String} (hkind : OneLine kind) (hfield : OneLine field) :
      Inert (skip (missing kind field) (.map step)) := by
    have hfront : OneLine "Loop of type '" := oneLine_literal rfl
    have hmiddle : OneLine "' without '" := oneLine_literal rfl
    have hback : OneLine "'" := oneLine_literal rfl
    refine skip_inert ?_ _
    unfold missing
    rw [oneLine_append, oneLine_append, oneLine_append, oneLine_append]
    exact ⟨⟨⟨⟨hfront, hkind⟩, hmiddle⟩, hfield⟩, hback⟩
  unfold loopBlock
  split
  · exact skip_inert (oneLine_literal rfl) _
  · split
    · exact .ite (hmissing (oneLine_literal rfl) (oneLine_literal rfl)) (forBlock_inert hnested _)
    · exact .ite (hmissing (oneLine_literal rfl) (oneLine_literal rfl)) (whileBlock_inert hnested _)
    · exact .ite (hmissing (oneLine_literal rfl) (oneLine_literal rfl)) (repeatBlock_inert hnested _)
    · exact skip_inert (oneLine_literal rfl) _

theorem handlerBlock_inert (guard : Guard) : Inert (handlerBlock nested guard) := by
  unfold handlerBlock
  split
  · exact .after fun _ => .after fun _ => below_inert hnested (by simp) _
  · exact .ite (.pure commented_nil) (.after fun _ => .pure (by simp))

theorem cleanupBlock_inert (guard : Guard) : Inert (cleanupBlock nested guard) := by
  unfold cleanupBlock
  split
  · exact below_inert hnested (by simp) _
  · exact .pure commented_nil

theorem guardBlock_inert (step : Step) : Inert (guardBlock nested step) := by
  have hrest : Inert (do
      let body ← nested ((Guard.read step).body.getD [])
      let handler ← handlerBlock nested (Guard.read step)
      let cleanup ← cleanupBlock nested (Guard.read step)
      return .block .attempt (filled body) :: (handler ++ cleanup)) := by
    refine .bind (hnested _) fun body hbody => .bind (handlerBlock_inert hnested _) fun handler hhandler => ?_
    refine .bind (cleanupBlock_inert hnested _) fun cleanup hcleanup => .pure ?_
    simp [hbody, hhandler, hcleanup]
  exact .ite (.after fun _ => hrest) hrest

theorem branchBlock_inert (merges : Bool) (group : Nat) (branch : NamedBranch) :
    Inert (branchBlock nested merges group branch) := by
  have hbody : Inert (keepScope (nested branch.branch.flow)) :=
    .after fun _ => .bind (hnested _) fun body hbody => .after fun _ => .pure hbody
  have hending (body : Block) : Inert (branchEnd merges branch.branch.flow branch.names body) := by
    refine .ite (.after fun _ => .pure (by simp)) (.pure ?_)
    split <;> simp
  refine .bind hbody fun body hbody => .bind (hending body) fun ending hending => .pure ?_
  split <;> simp [hbody, hending]

theorem groupBlock_inert (parallel : Parallel) : Inert (groupBlock ctx nested parallel) := by
  refine .after fun _ => .after fun group => .after fun branches => ?_
  refine .bind (hoist_inert _) fun hoisted hhoisted => ?_
  refine .bind (Inert.each _ (branchBlock_inert hnested _ _)) fun functions hfunctions => .after fun _ => .pure ?_
  split <;> simp [hhoisted, hfunctions]

theorem parallelBlock_inert (step : Step) : Inert (parallelBlock ctx nested step) := by
  have hempty : OneLine "Empty parallel group" := oneLine_literal rfl
  unfold parallelBlock
  split
  · exact skip_inert (oneLine_literal rfl) _
  · exact .ite (.after fun _ => .pure (by simp [hempty])) (groupBlock_inert hnested _)

/-- One step, by the rule of its kind. -/
theorem stepBlock_inert (step : Step) : Inert (stepBlock ctx nested step) := by
  unfold stepBlock
  split
  case h_1 =>
    unfold variablesBlock
    split
    · exact bindingsBlock_inert _
    · exact skip_inert (oneLine_literal rfl) _
  case h_2 => exact conditionalBlock_inert hnested step
  case h_3 => exact loopBlock_inert hnested step
  case h_4 =>
    unfold importStepBlock
    dsimp only
    split
    · exact importBlock_inert _ _
    · exact skip_inert (oneLine_literal rfl) _
  case h_5 => exact transformBlock_inert step
  case h_6 => exact guardBlock_inert hnested step
  case h_7 => exact callBlock_inert step
  case h_8 => exact parallelBlock_inert hnested step
  case h_9 => exact useBlock_inert step
  case h_10 => exact actionBlock_inert step
  case h_11 => exact skip_inert (oneLine_literal rfl) _

theorem entryOfFlow_inert (entry : Value) : Inert (entryOfFlow ctx nested entry) := by
  unfold entryOfFlow
  split
  · exact .after fun _ => stepBlock_inert hnested _
  · exact skip_inert (oneLine_literal rfl) _

end Nested

/-! ## Flows and tasks -/

theorem flowBlock_inert (ctx : Context) (levels : Nat) (flow : Flow) : Inert (flowBlock ctx levels flow) := by
  induction levels generalizing flow with
  | zero =>
    have hlimit : OneLine "Skipped: nesting limit reached" := oneLine_literal rfl
    exact .after fun _ => .after fun _ => .pure (by simp [hlimit])
  | succ levels ih => exact .each _ (entryOfFlow_inert ih)

theorem taskFlowBlock_inert (task : Value) (name : String) (flow : Flow) :
    Inert (taskFlowBlock ctx task name flow) := by
  have hflow (level : Int) : Inert (flowAt ctx level flow) := .after fun levels => flowBlock_inert ctx levels flow
  unfold taskFlowBlock
  split
  · exact .after fun _ => .bind (hflow 2) fun body hbody => .pure (by simpa [isolated] using hbody)
  · exact hflow 1

theorem outputBlock_inert (output : Value) : Inert (outputBlock ctx output) := by
  refine .ite (.pure commented_nil) (.ite (.after fun _ => .pure commented_nil) ?_)
  dsimp only
  split
  · exact .after fun _ => .after fun _ => .pure commented_nil
  · exact .after fun _ => .after fun _ => .pure (by simp)

/-- The title that a task of several has. -/
def titleText (numbered : Value × Nat) : String := "--- " ++ taskName numbered.1 numbered.2 ++ " ---"

theorem titleText_oneLine {numbered : Value × Nat} :
    OneLine (titleText numbered) ↔ OneLine (taskName numbered.1 numbered.2) := by
  have hfront : OneLine "--- " := oneLine_literal rfl
  have hback : OneLine " ---" := oneLine_literal rfl
  simp [titleText, hfront, hback]

/-- A task is its title, if it is one of several, and an inert rest. -/
theorem taskBlock_ensures (total : Nat) (numbered : Value × Nat) :
    Ensures (fun b => ∃ rest, b = taskTitle (taskName numbered.1 numbered.2) numbered.2 total ++ rest ∧
      Commented OneLine rest) (taskBlock ctx total numbered) := by
  have hfront : OneLine "Skipped task " := oneLine_literal rfl
  have hback : OneLine ": no flow list" := oneLine_literal rfl
  unfold taskBlock
  dsimp only
  split
  · refine .after fun _ => .pure ⟨_, rfl, ?_⟩
    simp [hfront, quote_oneLine, hback]
  · refine .bind (taskFlowBlock_inert _ _ _) fun body hbody => ?_
    refine .bind (outputBlock_inert _) fun output houtput => .pure ⟨body ++ output, ?_, ?_⟩
    · rw [List.append_assoc]
    · exact commented_append.mpr ⟨hbody, houtput⟩

theorem blockComments_taskTitle (name : String) (i total : Nat) (level : Int) :
    blockComments level (taskTitle name i total) = if total ≤ 1 then [] else [(level, "--- " ++ name ++ " ---")] := by
  unfold taskTitle
  split_ifs <;> rfl

/-! ## Documents -/

/-- The comments of tasks are titles or on one line, and every title is there. -/
theorem tasks_ensure (total : Nat) (tasks : List (Value × Nat)) (level : Int) :
    Ensures (fun b => (∀ c ∈ blockComments level b, OneLine c.2 ∨
        1 < total ∧ ∃ numbered ∈ tasks, c = (level, titleText numbered)) ∧
      (1 < total → ∀ numbered ∈ tasks, (level, titleText numbered) ∈ blockComments level b))
      (each (taskBlock ctx total) tasks) := by
  induction tasks with
  | nil => exact .pure ⟨by simp [blockComments], by simp⟩
  | cons numbered rest ih =>
    refine .bind (taskBlock_ensures total numbered) fun first hfirst => .bind ih fun others hothers => .pure ?_
    obtain ⟨body, rfl, hbody⟩ := hfirst
    simp only [blockComments_append, blockComments_taskTitle, List.mem_append]
    constructor
    · rintro c ((hc | hc) | hc)
      · split_ifs at hc with htotal
        · cases hc
        · obtain rfl := List.mem_singleton.mp hc
          exact .inr ⟨by omega, numbered, List.mem_cons_self, rfl⟩
      · exact .inl (hbody level c hc)
      · obtain hline | ⟨htotal, other, hother, rfl⟩ := hothers.1 c hc
        · exact .inl hline
        · exact .inr ⟨htotal, other, List.mem_cons_of_mem _ hother, rfl⟩
    · intro htotal other hother
      rcases List.mem_cons.mp hother with rfl | hother
      · rw [if_neg (by omega)]
        exact .inl (.inl List.mem_cons_self)
      · exact .inr (hothers.2 htotal other hother)

theorem prologue_inert (document : Fields) : Inert (prologue ctx document) := by
  refine .bind (Inert.each _ documentImport_inert) fun imports himports => ?_
  refine .bind (bindingsBlock_inert _) fun globals hglobals => .pure ?_
  split
  · exact commented_nil
  · simp [himports, hglobals]

/-- The comments of a document are titles of its tasks or on one line. -/
theorem documentBlock_ensures (document : Fields) (level : Int) :
    Ensures (fun b => (∀ c ∈ blockComments level b, OneLine c.2 ∨ 1 < (document.get "tasks").items.length ∧
        ∃ numbered ∈ (document.get "tasks").items.zipIdx, c = (level, titleText numbered)) ∧
      (1 < (document.get "tasks").items.length → ∀ numbered ∈ (document.get "tasks").items.zipIdx,
        (level, titleText numbered) ∈ blockComments level b)) (documentBlock ctx document) := by
  refine .bind (prologue_inert document) fun first hfirst => ?_
  refine .bind (tasks_ensure _ _ level) fun body hbody => .pure ?_
  simp only [blockComments_append, List.mem_append]
  constructor
  · rintro c (hc | hc)
    · exact .inl (hfirst level c hc)
    · exact hbody.1 c hc
  · intro htotal numbered hnumbered
    exact .inr (hbody.2 htotal numbered hnumbered)

variable {document : Fields} {s s' : State} {b : Block} {margin : Margin}

theorem oneLine_commentLine (hmargin : ∀ level, OneLine (margin level)) (c : Int × String) :
    OneLine (margin c.1 ++ "# " ++ c.2) ↔ OneLine c.2 := by
  have hsign : OneLine "# " := oneLine_literal rfl
  simp [hmargin, hsign]

theorem copies_oneLine {indent : String} (h : OneLine indent) (level : Int) :
    OneLine (Margin.copies indent level) := by
  unfold Margin.copies
  induction level.toNat with
  | zero => exact oneLine_literal rfl
  | succ n ih =>
    rw [List.replicate_succ, String.join_cons, oneLine_append]
    exact ⟨h, ih⟩

/-- The comment lines of a document are among its lines. Each of them is one line, unless it is the title of a
task whose name is not; so all of them are exactly if there is one task at most, or all names are. -/
theorem comment_lines_inert_iff (hmargin : ∀ level, OneLine (margin level))
    (h : (documentBlock ctx document).Runs s b s') :
    (commentLines margin 1 b).Sublist (b.lines margin 1) ∧
    (∀ line ∈ commentLines margin 1 b, OneLine line ∨ 1 < (document.get "tasks").items.length ∧
      ∃ numbered ∈ (document.get "tasks").items.zipIdx,
        line = margin 1 ++ "# " ++ ("--- " ++ taskName numbered.1 numbered.2 ++ " ---")) ∧
    ((∀ line ∈ commentLines margin 1 b, OneLine line) ↔ (document.get "tasks").items.length ≤ 1 ∨
      ∀ numbered ∈ (document.get "tasks").items.zipIdx, OneLine (taskName numbered.1 numbered.2)) := by
  obtain ⟨hcomments, htitles⟩ := documentBlock_ensures document 1 h
  refine ⟨commentLines_sublist margin 1 b, ?_, ?_⟩
  · intro line hline
    obtain ⟨c, hc, rfl⟩ := List.mem_map.mp hline
    obtain hone | ⟨htotal, numbered, hnumbered, rfl⟩ := hcomments c hc
    · exact .inl ((oneLine_commentLine hmargin c).mpr hone)
    · exact .inr ⟨htotal, numbered, hnumbered, rfl⟩
  · constructor
    · intro hlines
      by_cases htotal : (document.get "tasks").items.length ≤ 1
      · exact .inl htotal
      · refine .inr fun numbered hnumbered => ?_
        have hmem := htitles (by omega) numbered hnumbered
        have hline := hlines _ (List.mem_map.mpr ⟨_, hmem, rfl⟩)
        exact titleText_oneLine.mp ((oneLine_commentLine hmargin _).mp hline)
    · intro hnames line hline
      obtain ⟨c, hc, rfl⟩ := List.mem_map.mp hline
      rw [oneLine_commentLine hmargin]
      obtain hone | ⟨htotal, numbered, hnumbered, rfl⟩ := hcomments c hc
      · exact hone
      · rcases hnames with hfew | hnames
        · omega
        · exact titleText_oneLine.mpr (hnames numbered hnumbered)

/-- Two tasks of the given names: one without a flow, and one with line breaks in a variable and in an entry that
is no step. -/
def twoTasks (first second : String) : Fields :=
  [(.text "tasks", .list [.map [(.text "name", .text first)],
    .map [(.text "name", .text second), (.text "flow", .list
      [.map [(.text "variables", .map [(.text "a\nb", .int 1)])], .text "x\r\nimport os"])]])]

theorem twoTasks_comments_inert :
    ∃ b s', (documentBlock {} (twoTasks "log in" "log out")).Runs {} b s' ∧
      (commentLines (Margin.copies "  ") 1 b).length = 5 ∧
      ∀ line ∈ commentLines (Margin.copies "  ") 1 b, OneLine line := by
  have hshape : ((documentBlock {} (twoTasks "log in" "log out")).run {}).toOption.map
      (fun r => (commentLines (Margin.copies "  ") 1 r.1).length) = some 5 := by decide +kernel
  cases hrun : (documentBlock {} (twoTasks "log in" "log out")).run {} with
  | error f => simp [hrun, Except.toOption] at hshape
  | ok r =>
    obtain ⟨b, s'⟩ := r
    have hindent : OneLine "  " := oneLine_literal rfl
    obtain ⟨-, -, hiff⟩ := comment_lines_inert_iff (copies_oneLine hindent) hrun
    refine ⟨b, s', hrun, by simpa [hrun, Except.toOption] using hshape, hiff.mpr (.inr ?_)⟩
    decide +kernel

/-- The name of a task ends the comment and goes on as a line of the program. -/
theorem title_leaves_comment :
    ((documentBlock {} (twoTasks "a\nimport os" "b")).run {}).toOption.map
        (fun r => (commentLines (Margin.copies "    ") 1 r.1).take 2) =
      some ["    # --- a\nimport os ---", "    # Skipped task 'a\\nimport os': no flow list"] ∧
    ¬ OneLine "    # --- a\nimport os ---" := by
  refine ⟨?_, ?_⟩
  all_goals decide +kernel

end FlowScript.Program
