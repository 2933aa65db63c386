import FlowScript.Proofs.Assigned
import FlowScript.Proofs.Notices
import FlowScript.Proofs.WellNested

/-!
# Flows one level deeper

The level of a flow matters for two things: how far its lines are indented, and how many levels may be
entered below it. The rules of steps see neither. So as long as the limit is not reached, a flow that
is compiled one level deeper has the same lines with one more indent, and leaves the same state.

Whether the limit is reached is told by another rule for the flows beyond it. A pass is put together
from passes that either do not depend on this rule or fail with whatever fault it raises.
-/
namespace FlowScript.Program

open Construct Pass

/-! ## Other rules at the limit -/

/-- What is done with a flow beyond the last level. -/
abbrev LimitRule := Flow → Pass Block

/-- Compiles a flow with a rule of its own for the flows beyond the last level. -/
def flowBlockUnder (ctx : Context) (rule : LimitRule) : Nat → Flow → Pass Block
  | 0, flow => rule flow
  | levels + 1, flow => each (entryOfFlow ctx (flowBlockUnder ctx rule levels)) flow

/-- Going on beyond the last level is entering more levels. -/
theorem flowBlockUnder_flowBlock (ctx : Context) (levels more : Nat) :
    flowBlockUnder ctx (flowBlock ctx more) levels = flowBlock ctx (levels + more) := by
  induction levels with
  | zero => rw [Nat.zero_add]; rfl
  | succ levels ih =>
    funext flow
    rw [flowBlockUnder, ih, Nat.succ_add, flowBlock]

/-- Some property of passes under a rule that is kept where passes are put together. -/
structure Composes (D : (α : Type) → (LimitRule → Pass α) → Prop) : Prop where
  const {α : Type} (p : Pass α) : D α fun _ => p
  bind {α β : Type} {p : LimitRule → Pass α} {f : LimitRule → α → Pass β} (hp : D α p)
    (hf : ∀ a, D β fun rule => f rule a) : D β fun rule => p rule >>= f rule

namespace Composes

variable {D : (α : Type) → (LimitRule → Pass α) → Prop} {α β : Type}

theorem after (hD : Composes D) (p : Pass α) {f : LimitRule → α → Pass β}
    (hf : ∀ a, D β fun rule => f rule a) : D β fun rule => p >>= f rule :=
  hD.bind (hD.const p) hf

theorem wrap (hD : Composes D) {p : LimitRule → Pass α} (hp : D α p) (g : α → β) :
    D β fun rule => do
      let a ← p rule
      return g a :=
  hD.bind hp fun _ => hD.const _

/-- A result that may be missing is known where it is used. -/
theorem lift (hD : Composes D) {e : Except Fault α} {f : LimitRule → α → Pass β}
    (hf : ∀ a, e = .ok a → D β fun rule => f rule a) : D β fun rule => (liftM e : Pass α) >>= f rule := by
  cases e with
  | error fault => exact hD.const (liftM (Except.error fault : Except Fault β))
  | ok a => exact hf a rfl

theorem ite {c : Prop} [Decidable c] {p q : LimitRule → Pass α} (hp : c → D α p) (hq : ¬c → D α q) :
    D α fun rule => if c then p rule else q rule := by
  by_cases hc : c
  · simpa only [if_pos hc] using hp hc
  · simpa only [if_neg hc] using hq hc

theorem each (hD : Composes D) {f : LimitRule → α → Pass Block} {entries : List α}
    (hf : ∀ entry ∈ entries, D Block fun rule => f rule entry) :
    D Block fun rule => Pass.each (f rule) entries := by
  induction entries with
  | nil => exact hD.const _
  | cons entry rest ih =>
    refine hD.bind (hf entry List.mem_cons_self) fun first => hD.bind (ih fun other hmem => ?_) fun _ =>
      hD.const _
    exact hf other (List.mem_cons_of_mem _ hmem)

end Composes

section Rules

variable {D : (α : Type) → (LimitRule → Pass α) → Prop} (hD : Composes D) {ctx : Context} {step : Step}
  {nested : LimitRule → Flow → Pass Block}

include hD

theorem conditionalBlock_composes (hk : step.kind = .logic)
    (hnested : ∀ flow ∈ compiledFlows step, D Block fun rule => nested rule flow) :
    D Block fun rule => conditionalBlock ctx (nested rule) step := by
  refine Composes.ite (fun _ => hD.const _) fun hcondition => hD.after _ fun condition => ?_
  have hskip : step.isSkipped = false := by simpa [Step.isSkipped, hk] using hcondition
  have hyes : D Block fun rule => nested rule ((step.get "logic").field "then").items := by
    refine hnested _ ?_
    rw [compiledFlows, if_neg (by simp [hskip])]
    split_ifs
    · exact List.mem_singleton.mpr rfl
    · simp [constructFlows, hk]
  refine hD.bind hyes fun yes => Composes.ite (fun _ => hD.const _) fun helse => ?_
  refine hD.wrap (hnested _ ?_) _
  rw [Bool.not_eq_true] at helse
  simp [compiledFlows, constructFlows, hskip, hk, helse]

theorem forBlock_composes {loop : Loop} (hflow : D Block fun rule => nested rule loop.flow) :
    D Block fun rule => forBlock ctx (nested rule) loop := by
  refine hD.after _ fun items => hD.after _ fun item => hD.after _ fun _ => Composes.ite (fun _ => ?_) fun _ => ?_
  · exact hD.wrap hflow _
  · exact hD.after _ fun index => hD.after _ fun _ => hD.wrap hflow _

theorem whileBlock_composes {loop : Loop} (hflow : D Block fun rule => nested rule loop.flow) :
    D Block fun rule => whileBlock ctx (nested rule) loop := by
  refine hD.after _ fun counter => Composes.ite (fun _ => ?_) fun _ => ?_
  · exact hD.after _ fun bound => hD.after _ fun condition => hD.wrap hflow _
  · exact hD.after _ fun bound => hD.after _ fun condition => hD.wrap hflow _

theorem repeatBlock_composes {loop : Loop} (hflow : D Block fun rule => nested rule loop.flow) :
    D Block fun rule => repeatBlock ctx (nested rule) loop := by
  refine Composes.ite (fun _ => ?_) fun _ => ?_
  · exact hD.after _ fun index => hD.after _ fun _ => hD.after _ fun count => hD.wrap hflow _
  · exact hD.after _ fun index => hD.after _ fun _ => hD.after _ fun count => hD.wrap hflow _

theorem loopBlock_composes (hk : step.kind = .loop)
    (hnested : ∀ flow ∈ compiledFlows step, D Block fun rule => nested rule flow) :
    D Block fun rule => loopBlock ctx (nested rule) step := by
  unfold loopBlock
  cases hr : Loop.read? step with
  | none => exact hD.const _
  | some loop =>
    have hflow (hloop : Step.isLoop loop = true) : D Block fun rule => nested rule loop.flow :=
      hnested _ (by simp [compiledFlows, constructFlows, Step.isSkipped, hk, hr, hloop])
    dsimp only
    split
    case h_1 hkind =>
      exact Composes.ite (fun _ => hD.const _) fun h =>
        forBlock_composes hD (hflow (by simpa [Step.isLoop, hkind] using h))
    case h_2 hkind =>
      exact Composes.ite (fun _ => hD.const _) fun h =>
        whileBlock_composes hD (hflow (by simpa [Step.isLoop, hkind] using h))
    case h_3 hkind =>
      exact Composes.ite (fun _ => hD.const _) fun h =>
        repeatBlock_composes hD (hflow (by simpa [Step.isLoop, hkind] using h))
    case h_4 => exact hD.const _

theorem guardBlock_composes (hk : step.kind = .guarded)
    (hnested : ∀ flow ∈ compiledFlows step, D Block fun rule => nested rule flow) :
    D Block fun rule => guardBlock (nested rule) step := by
  have hflows : compiledFlows step = constructFlows step := by simp [compiledFlows, Step.isSkipped, hk]
  have hhandler : D Block fun rule => handlerBlock (nested rule) (Guard.read step) := by
    unfold handlerBlock
    cases hflow : (Guard.read step).handler with
    | none => exact hD.const _
    | some flow =>
      refine hD.after _ fun name => hD.after _ fun _ => hD.wrap (hnested flow ?_) _
      simp [hflows, constructFlows, hk, hflow]
  have hcleanup : D Block fun rule => cleanupBlock (nested rule) (Guard.read step) := by
    unfold cleanupBlock
    cases hflow : (Guard.read step).cleanup with
    | none => exact hD.const _
    | some flow =>
      refine hD.wrap (hnested flow ?_) _
      simp [hflows, constructFlows, hk, hflow]
  have hrest : D Block fun rule => do
      let body ← nested rule ((Guard.read step).body.getD [])
      let handler ← handlerBlock (nested rule) (Guard.read step)
      let cleanup ← cleanupBlock (nested rule) (Guard.read step)
      return .block .attempt (filled body) :: (handler ++ cleanup) := by
    refine hD.bind (hnested _ ?_) fun body => hD.bind hhandler fun handler => hD.wrap hcleanup _
    simp [hflows, constructFlows, hk]
  exact Composes.ite (fun _ => hD.after _ fun _ => hrest) fun _ => hrest

theorem branchBlock_composes (merges : Bool) (group : Nat) {branch : NamedBranch}
    (hflow : D Block fun rule => nested rule branch.branch.flow) :
    D Block fun rule => branchBlock (nested rule) merges group branch := by
  have hkeep : D Block fun rule => keepScope (nested rule branch.branch.flow) :=
    hD.after _ fun s => hD.bind hflow fun body => hD.const _
  exact hD.bind hkeep fun body => hD.const _

theorem parallelBlock_composes (hk : step.kind = .parallel)
    (hnested : ∀ flow ∈ compiledFlows step, D Block fun rule => nested rule flow) :
    D Block fun rule => parallelBlock ctx (nested rule) step := by
  unfold parallelBlock
  cases hr : Parallel.read? step with
  | none => exact hD.const _
  | some parallel =>
    refine Composes.ite (fun _ => hD.const _) fun _ => ?_
    refine hD.after _ fun _ => hD.after _ fun group => hD.lift fun named hnamed => hD.after _ fun hoisted => ?_
    refine hD.bind (hD.each fun branch hbranch => ?_) fun functions => hD.const _
    refine branchBlock_composes hD _ _ (hnested _ ?_)
    have hflows : compiledFlows step = constructFlows step := by
      simp [compiledFlows, Step.isSkipped, hk, hr]
    rw [hflows, constructFlows_of_named hk hr hnamed]
    exact List.mem_map.mpr ⟨branch, hbranch, rfl⟩

theorem stepBlock_composes (hnested : ∀ flow ∈ compiledFlows step, D Block fun rule => nested rule flow) :
    D Block fun rule => stepBlock ctx (nested rule) step := by
  unfold stepBlock
  split
  case h_2 hk => exact conditionalBlock_composes hD hk hnested
  case h_3 hk => exact loopBlock_composes hD hk hnested
  case h_6 hk => exact guardBlock_composes hD hk hnested
  case h_8 hk => exact parallelBlock_composes hD hk hnested
  all_goals exact hD.const _

theorem entryOfFlow_composes {entry : Value} (hnested : ∀ step, entry.step? = some step →
      ∀ flow ∈ compiledFlows step, D Block fun rule => nested rule flow) :
    D Block fun rule => entryOfFlow ctx (nested rule) entry := by
  unfold entryOfFlow
  cases hstep : entry.step? with
  | none => exact hD.const _
  | some step => exact hD.after _ fun _ => stepBlock_composes hD (hnested step hstep)

end Rules

/-! ## Reaching the limit -/

/-- From every state, a pass either ends in the same way under all rules, or it fails with whatever
fault the rule raises. -/
def Decided (α : Type) (p : LimitRule → Pass α) : Prop :=
  ∀ s, (∃ r, ∀ rule, (p rule).run s = r) ∨ ∀ fault, (p fun _ => throw fault).run s = .error fault

theorem decided_composes : Composes Decided where
  const p s := .inl ⟨p.run s, fun _ => rfl⟩
  bind {α β p f} hp hf s := by
    -- What the first pass ends with is the same for all rules, or its fault is the last.
    rcases hp s with ⟨r, hr⟩ | hfault
    · cases r with
      | error fault =>
        refine .inl ⟨.error fault, fun rule => ?_⟩
        rw [StateT.run_bind, hr rule]
        rfl
      | ok result =>
        obtain ⟨a, t⟩ := result
        rcases hf a t with ⟨r', hr'⟩ | hfault
        · refine .inl ⟨r', fun rule => ?_⟩
          rw [StateT.run_bind, hr rule]
          exact hr' rule
        · refine .inr fun fault => ?_
          rw [StateT.run_bind, hr]
          exact hfault fault
    · refine .inr fun fault => ?_
      rw [StateT.run_bind, hfault fault]
      rfl

theorem flowBlockUnder_decided (ctx : Context) (levels : Nat) (flow : Flow) :
    Decided Block fun rule => flowBlockUnder ctx rule levels flow := by
  induction levels generalizing flow with
  | zero => exact fun s => .inr fun fault => rfl
  | succ levels ih =>
    exact decided_composes.each fun entry _ => entryOfFlow_composes decided_composes fun _ _ below _ => ih below

/-- A pass that does not depend on the rule. -/
def Unaffected (α : Type) (p : LimitRule → Pass α) : Prop := ∀ rule rule', p rule = p rule'

theorem unaffected_composes : Composes Unaffected where
  const p _ _ := rfl
  bind {α β p f} hp hf rule rule' := by
    have hrest : f rule = f rule' := funext fun a => hf a rule rule'
    show p rule >>= f rule = p rule' >>= f rule'
    rw [hp rule rule', hrest]

/-- Where no flow is left out, none is beyond the last level. -/
theorem flowBlockUnder_unaffected {ctx : Context} {levels : Nat} {flow : Flow} (h : cutFlows levels flow = 0) :
    Unaffected Block fun rule => flowBlockUnder ctx rule levels flow := by
  induction levels generalizing flow with
  | zero => simp [cutFlows] at h
  | succ levels ih =>
    rw [cutFlows, List.sum_eq_zero_iff_forall_eq_nat] at h
    refine unaffected_composes.each fun entry hentry =>
      entryOfFlow_composes unaffected_composes fun step hstep below hbelow => ih ?_
    have hsum := h _ (List.mem_map.mpr ⟨entry, hentry, rfl⟩)
    rw [hstep, Option.elim_some, List.sum_eq_zero_iff_forall_eq_nat] at hsum
    exact hsum _ (List.mem_map.mpr ⟨below, hbelow, rfl⟩)

theorem flowBlockUnder_cuts {ctx : Context} {rule : LimitRule}
    (hrule : ∀ flow, Cuts ctx.settings 0 (rule flow)) (levels : Nat) (flow : Flow) :
    Cuts ctx.settings 0 (flowBlockUnder ctx rule levels flow) := by
  induction levels generalizing flow with
  | zero => exact hrule flow
  | succ levels ih =>
    refine (Cuts.each fun entry _ => entryOfFlow_cuts ih entry).congr ?_
    rw [List.sum_eq_zero_iff_forall_eq_nat]
    intro count hcount
    obtain ⟨entry, -, rfl⟩ := List.mem_map.mp hcount
    cases entry.step? <;> simp

/-- Compiling a flow that starts at a level comes to a flow beyond the last level: it would fail with any
fault that is raised there. -/
def ReachesLimit (ctx : Context) (level : Int) (flow : Flow) (s : State) : Prop :=
  ∃ levels, levelsFrom ctx.settings level = .ok levels ∧
    ∀ fault, (flowBlockUnder ctx (fun _ => throw fault) levels flow).run s = .error fault

section Limit

variable {ctx : Context} {level : Int} {levels : Nat} {flow : Flow} {s s' : State} {b : Block}

theorem runs_of_flowAt (h : (flowAt ctx level flow).Runs s b s') :
    ∃ levels, levelsFrom ctx.settings level = .ok levels ∧ (flowBlock ctx levels flow).Runs s b s' := by
  simp only [flowAt, runs_bind, runs_lift] at h
  obtain ⟨levels, _, ⟨hlevels, rfl⟩, h⟩ := h
  exact ⟨levels, hlevels, h⟩

/-- A block without a notice was compiled without coming to the limit. -/
theorem reachesLimit_iff (h : (flowAt ctx level flow).Runs s b s') :
    ReachesLimit ctx level flow s ↔ 0 < blockNotices b := by
  obtain ⟨levels, hlevels, hrun⟩ := runs_of_flowAt h
  have hcuts := (flowBlock_cuts ctx levels flow hrun).2
  constructor
  · rintro ⟨_, hlevels', hfault⟩
    obtain rfl := Except.ok.inj (hlevels.symm.trans hlevels')
    rw [hcuts, Nat.pos_iff_ne_zero]
    intro hzero
    have hsame : flowBlock ctx levels flow = flowBlockUnder ctx (fun _ => throw .unusableIndent) levels flow := by
      have hrule := flowBlockUnder_flowBlock ctx levels 0
      rw [← Nat.add_zero levels, ← hrule]
      exact flowBlockUnder_unaffected hzero _ _
    have herror := hfault .unusableIndent
    rw [← hsame, hrun] at herror
    cases herror
  · intro hpos
    refine ⟨levels, hlevels, ?_⟩
    rcases flowBlockUnder_decided ctx levels flow s with ⟨r, hr⟩ | hfault
    · -- Under a rule that leaves nothing there would be no notice either.
      have hrule : (flowBlockUnder ctx (flowBlock ctx 0) levels flow).run s = r := hr _
      rw [flowBlockUnder_flowBlock ctx levels 0, Nat.add_zero] at hrule
      have hempty : (flowBlockUnder ctx (fun _ => pure []) levels flow).Runs s b s' :=
        (hr _).trans (hrule.symm.trans hrun)
      have hnone := (flowBlockUnder_cuts (fun _ => .pure rfl) levels flow hempty).2
      omega
    · exact hfault

/-- Where the limit is not reached, more levels change nothing. -/
theorem run_flowBlock_add (h : ¬ ∀ fault, (flowBlockUnder ctx (fun _ => throw fault) levels flow).run s =
      .error fault) (more : Nat) :
    (flowBlock ctx (levels + more) flow).run s = (flowBlock ctx levels flow).run s := by
  obtain ⟨r, hr⟩ := (flowBlockUnder_decided ctx levels flow s).resolve_right h
  have hrule (more : Nat) : (flowBlock ctx (levels + more) flow).run s = r := by
    rw [← flowBlockUnder_flowBlock]
    exact hr _
  exact (hrule more).trans (hrule 0).symm

theorem run_flowAt_succ (h : ¬ ReachesLimit ctx (level + 1) flow s) :
    (flowAt ctx (level + 1) flow).run s = (flowAt ctx level flow).run s := by
  cases hmost : ctx.settings.maxWalkDepth.most with
  | error fault => simp only [flowAt, levelsFrom, hmost]; rfl
  | ok most =>
    have hlevels (level : Int) : levelsFrom ctx.settings level = .ok (most + 1 - level).toNat := by
      rw [levelsFrom, hmost]
      rfl
    have hrun (level : Int) : (flowAt ctx level flow).run s =
        (flowBlock ctx (most + 1 - level).toNat flow).run s := by
      rw [flowAt, hlevels]
      rfl
    have hfault : ¬ ∀ fault, (flowBlockUnder ctx (fun _ => throw fault) (most + 1 - (level + 1)).toNat
        flow).run s = .error fault := fun hfault => h ⟨_, hlevels _, hfault⟩
    -- At the last level itself the limit would be reached at once.
    have hpos : (most + 1 - (level + 1)).toNat ≠ 0 := by
      intro hzero
      rw [hzero] at hfault
      exact hfault fun _ => rfl
    have hsucc : (most + 1 - level).toNat = (most + 1 - (level + 1)).toNat + 1 := by omega
    rw [hrun, hrun, hsucc, run_flowBlock_add hfault 1]

end Limit

/-! ## Lines -/

/-- A line with one more indent; an empty line stays empty. -/
def deeperLine (indent line : String) : String := if line = "" then "" else indent ++ line

section Lines

variable {indent : String} {level : Int}

theorem copies_succ (hlevel : 0 ≤ level) :
    Margin.copies indent (level + 1) = indent ++ Margin.copies indent level := by
  have hsucc : (level + 1).toNat = level.toNat + 1 := by omega
  rw [Margin.copies, hsucc, List.replicate_succ, String.join_cons, Margin.copies]

theorem deeperLine_copies (hne : indent ≠ "") (hlevel : 1 ≤ level) (code : String) :
    deeperLine indent (Margin.copies indent level ++ code) = Margin.copies indent (level + 1) ++ code := by
  have hmargin : Margin.copies indent level ++ code ≠ "" := fun h =>
    copies_ne_empty hne hlevel (String.append_eq_empty_iff.mp h).1
  rw [deeperLine, if_neg hmargin, copies_succ (by omega), String.append_assoc]

mutual

theorem Item.lines_deeper (hne : indent ≠ "") : {level : Int} → 1 ≤ level → (item : Item) →
    item.lines (Margin.copies indent) (level + 1) =
      (item.lines (Margin.copies indent) level).map (deeperLine indent)
  | _, hlevel, .line statement => by
    simp only [Item.lines, List.map_cons, List.map_nil, deeperLine_copies hne hlevel]
  | _, hlevel, .comment text => by
    simp only [Item.lines, List.map_cons, List.map_nil, String.append_assoc, deeperLine_copies hne hlevel]
  | _, _, .blank => by
    simp [Item.lines, deeperLine]
  | level, hlevel, .block header body => by
    have hbody := blockLines_deeper hne (show 1 ≤ level + 1 by omega) body
    simp only [Item.lines, List.map_cons, deeperLine_copies hne hlevel, hbody]

/-- The lines of a block one level deeper. -/
theorem blockLines_deeper (hne : indent ≠ "") : {level : Int} → 1 ≤ level → (b : Block) →
    blockLines (Margin.copies indent) (level + 1) b =
      (blockLines (Margin.copies indent) level b).map (deeperLine indent)
  | _, _, [] => rfl
  | _, hlevel, item :: items => by
    rw [blockLines, blockLines, List.map_append, Item.lines_deeper hne hlevel item,
      blockLines_deeper hne hlevel items]

end

theorem written_succ (hne : indent ≠ "") (hlevel : 1 ≤ level) (b : Block) :
    b.written (.text indent) (level + 1) =
      (b.written (.text indent) level).map (List.map (deeperLine indent)) := by
  cases b with
  | nil => rfl
  | cons item items =>
    have hlines := blockLines_deeper hne hlevel (item :: items)
    exact congrArg Except.ok hlines

end Lines

/-- The lines of a flow that starts at a level. -/
def flowLines (ctx : Context) (level : Int) (flow : Flow) : Pass (List String) := do
  let block ← flowAt ctx level flow
  liftM (block.written ctx.settings.indent level)

/-- A flow that is compiled one level deeper, without coming to the limit, has the same lines with one
more indent and leaves the same state, and it fails in the same way if it fails. Coming to the limit
shows in what is generated. -/
theorem flowLines_succ {ctx : Context} {level : Int} {flow : Flow} {indent : String} (hlevel : 1 ≤ level)
    (hindent : ctx.settings.indent = .text indent) (hne : indent ≠ "") (s : State) :
    (∀ b s', (flowAt ctx (level + 1) flow).Runs s b s' →
      (ReachesLimit ctx (level + 1) flow s ↔ 0 < blockNotices b)) ∧
    (¬ ReachesLimit ctx (level + 1) flow s →
      (flowLines ctx (level + 1) flow).run s =
        ((flowLines ctx level flow).run s).map fun r => (r.1.map (deeperLine indent), r.2)) := by
  refine ⟨fun b s' hrun => reachesLimit_iff hrun, fun hlimit => ?_⟩
  rw [flowLines, flowLines, hindent, StateT.run_bind, StateT.run_bind, run_flowAt_succ hlimit]
  cases (flowAt ctx level flow).run s with
  | error fault => rfl
  | ok r =>
    obtain ⟨b, s'⟩ := r
    change (liftM (b.written (.text indent) (level + 1)) : Pass (List String)).run s' =
      ((liftM (b.written (.text indent) level) : Pass (List String)).run s').map _
    rw [written_succ hne hlevel]
    cases b.written (.text indent) level <;> rfl

theorem roundsOfBranches_flowLines_succ :
    ¬ ReachesLimit tabbed 2 roundsOfBranches {} ∧
      ((flowLines tabbed 1 roundsOfBranches).run {}).toOption.map (fun r => r.1.map (deeperLine "\t")) =
        some roundsLines := by
  have hnotices : ((flowAt tabbed 2 roundsOfBranches).run {}).toOption.map (fun r => blockNotices r.1) =
      some 0 := by decide +kernel
  have hlines : ((flowLines tabbed 2 roundsOfBranches).run {}).toOption.map (·.1) = some roundsLines := by
    decide +kernel
  have hlevel : (1 : Int) ≤ 1 := by decide
  have hne : "\t" ≠ "" := by decide
  obtain ⟨hreaches, hsucc⟩ := @flowLines_succ tabbed 1 roundsOfBranches "\t" hlevel rfl hne {}
  have hlimit : ¬ ReachesLimit tabbed 2 roundsOfBranches {} := by
    cases hrun : (flowAt tabbed 2 roundsOfBranches).run {} with
    | error e => simp [hrun, Except.toOption] at hnotices
    | ok r =>
      obtain ⟨b, s'⟩ := r
      rw [hrun] at hnotices
      have hzero : blockNotices b = 0 := Option.some.inj hnotices
      have hiff := hreaches b s' hrun
      rw [hzero] at hiff
      exact fun h => absurd (hiff.mp h) (by omega)
  refine ⟨hlimit, ?_⟩
  rw [show (2 : Int) = 1 + 1 from rfl, hsucc hlimit] at hlines
  rw [← hlines]
  cases (flowLines tabbed 1 roundsOfBranches).run {} <;> rfl

end FlowScript.Program
