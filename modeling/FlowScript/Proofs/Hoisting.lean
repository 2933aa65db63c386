import FlowScript.Proofs.Assigned
import FlowScript.Proofs.Layout

/-!
# Names of branch functions

A branch of a parallel group is a function of its own, and what it assigns to has to outlive it. So the
names that the walk finds in the branch are bound before the group, and the function declares them. The
walk and the pass are independent of each other. The main statement is that they agree: a branch
assigns to no other names than those it declares, returns one of them, and each of them is bound
earlier by a function around it.
-/
namespace FlowScript.Program

open Construct Pass

/-! ## Names in blocks -/

mutual

/-- The names that an item binds in the function it stands in. -/
def Item.bound : Item → List String
  | .line statement => statement.targets
  | .comment _ => []
  | .blank => []
  | .block (.branch _) _ => []
  | .block header body => header.targets ++ blockBound body

def blockBound : List Item → List String
  | [] => []
  | item :: items => item.bound ++ blockBound items

end

/-- A branch function stands in a block that follows bindings of the `known` names. The last argument
holds the names that are bound before the function by the functions around it. -/
inductive BranchAt (function : String) (body : Block) : List String → Block → List String → Prop where
  | here {known : List String} {before after : Block} : BranchAt function body known
      (before ++ .block (.branch function) body :: after) (known ++ blockBound before)
  | inside {known enclosing : List String} {header : Header} {before inner after : Block}
      (h : BranchAt function body (known ++ blockBound before ++ header.targets) inner enclosing) :
      BranchAt function body known (before ++ .block header inner :: after) enclosing

/-- The names that the first line of a function declares. -/
def declaredNames : Block → List String
  | .line (.nonlocals names) :: _ => names
  | _ => []

/-- The body of a branch function declares the names it assigns to, returns one of them if it returns
anything, and declares only names that are known before it. -/
structure DeclaresNames (known : List String) (body : Block) : Prop where
  assigned : blockAssigned body ⊆ declaredNames body
  returned : ∀ value, .line (.returns value) ∈ body → value = "None" ∨ value ∈ declaredNames body
  known : declaredNames body ⊆ known

mutual

/-- Every branch function in an item that follows bindings of the known names declares its names. -/
def Item.Declares (known : List String) : Item → Prop
  | .line _ => True
  | .comment _ => True
  | .blank => True
  | .block header body =>
    (∀ function, header = .branch function → DeclaresNames known body) ∧
      blockDeclares (known ++ header.targets) body

def blockDeclares (known : List String) : List Item → Prop
  | [] => True
  | item :: items => item.Declares known ∧ blockDeclares (known ++ item.bound) items

end

section Blocks

variable {known : List String} {a b : Block}

@[simp] theorem blockBound_nil : blockBound [] = [] := rfl

@[simp] theorem blockBound_cons (item : Item) (items : Block) :
    blockBound (item :: items) = item.bound ++ blockBound items := rfl

@[simp] theorem blockBound_append : blockBound (a ++ b) = blockBound a ++ blockBound b := by
  induction a with
  | nil => simp
  | cons item items ih => simp [ih]

@[simp] theorem blockDeclares_nil : blockDeclares known [] := trivial

@[simp] theorem blockDeclares_cons (item : Item) (items : Block) : blockDeclares known (item :: items) ↔
    item.Declares known ∧ blockDeclares (known ++ item.bound) items := Iff.rfl

theorem blockDeclares_append : blockDeclares known (a ++ b) ↔
    blockDeclares known a ∧ blockDeclares (known ++ blockBound a) b := by
  induction a generalizing known with
  | nil => simp
  | cons item items ih =>
    rw [List.cons_append, blockDeclares_cons, blockDeclares_cons, ih, blockBound_cons, and_assoc,
      List.append_assoc]

/-- What the recursion over a block says of every branch function in it. -/
theorem declaresNames_of_branchAt {function : String} {body : Block} {enclosing : List String}
    (h : BranchAt function body known b enclosing) (hb : blockDeclares known b) :
    DeclaresNames enclosing body := by
  induction h with
  | here =>
    rw [blockDeclares_append, blockDeclares_cons, Item.Declares] at hb
    exact hb.2.1.1 function rfl
  | inside _ ih =>
    rw [blockDeclares_append, blockDeclares_cons, Item.Declares] at hb
    exact ih hb.2.1.2

end Blocks

/-! ## Declarations -/

/-- From a state with only known names in scope to the next, a block is left whose branch functions
declare their names, and only names that the block binds come into scope. -/
def Declared (known : List String) (s : State) (b : Block) (s' : State) : Prop :=
  s.scope.names ⊆ known → blockDeclares known b ∧ s'.scope.names ⊆ known ++ blockBound b

/-- A pass that leaves such a block, whatever is known before it. -/
def Declaring (p : Pass Block) : Prop :=
  ∀ ⦃known : List String⦄ ⦃s : State⦄ ⦃b : Block⦄ ⦃s' : State⦄, p.Runs s b s' → Declared known s b s'

section Declared

variable {known names : List String} {s t s' : State} {a b : Block}

/-- Lines and comments hold no functions. -/
def Plain (b : Block) : Prop := ∀ header body, .block header body ∉ b

theorem blockDeclares_of_plain (h : Plain b) : blockDeclares known b := by
  induction b generalizing known with
  | nil => simp
  | cons item items ih =>
    rw [blockDeclares_cons]
    refine ⟨?_, ih fun header body hmem => h header body (List.mem_cons_of_mem _ hmem)⟩
    cases item with
    | block header body => exact absurd List.mem_cons_self (h header body)
    | _ => rw [Item.Declares]; trivial

namespace Declared

theorem of_plain (hp : Plain b) (h : s'.scope.names ⊆ s.scope.names ++ blockBound b) :
    Declared known s b s' := by
  intro hs
  refine ⟨blockDeclares_of_plain hp, fun n hn => ?_⟩
  have hn := h hn
  rw [List.mem_append] at hn ⊢
  exact hn.imp_left fun hn => hs hn

theorem of_binds (hp : Plain b) (hb : s.Binds names s') (hn : names ⊆ blockBound b) :
    Declared known s b s' := by
  refine of_plain hp fun n hmem => ?_
  rw [List.mem_append]
  exact ((hb.scope n).mp hmem).imp_right fun h => hn h

protected theorem append (h : Declared known s a t) (h' : Declared (known ++ blockBound a) t b s') :
    Declared known s (a ++ b) s' := by
  intro hs
  obtain ⟨ha, ht⟩ := h hs
  obtain ⟨hb, hs'⟩ := h' ht
  rw [blockDeclares_append, blockBound_append, ← List.append_assoc]
  exact ⟨⟨ha, hb⟩, hs'⟩

protected theorem filled (h : Declared known s b s') : Declared known s (filled b) s' := by
  cases b with
  | nil =>
    intro hs
    obtain ⟨-, hs'⟩ := h hs
    exact ⟨blockDeclares_of_plain (by simp [Plain, Pass.filled]),
      by simpa [Pass.filled, Item.bound, Statement.targets] using hs'⟩
  | cons item items => exact h

/-- A header that opens no function binds its names for the body and what follows. -/
protected theorem block {header : Header} (hh : ∀ function, header ≠ .branch function)
    (hb : s.Binds names t) (hn : names ⊆ header.targets)
    (hbody : Declared (known ++ header.targets) t b s') :
    Declared known s [.block header b] s' := by
  intro hs
  have hbound : (Item.block header b).bound = header.targets ++ blockBound b := by
    cases header with
    | branch function => exact absurd rfl (hh function)
    | _ => rw [Item.bound]; simp
  have ht : t.scope.names ⊆ known ++ header.targets := by
    intro n hmem
    rw [List.mem_append]
    exact ((hb.scope n).mp hmem).imp (fun h => hs h) fun h => hn h
  obtain ⟨hdeclares, hs'⟩ := hbody ht
  rw [blockDeclares_cons, Item.Declares, blockBound_cons, hbound, blockBound_nil, List.append_nil,
    ← List.append_assoc]
  exact ⟨⟨⟨fun function he => absurd he (hh function), hdeclares⟩, blockDeclares_nil⟩, hs'⟩

end Declared

theorem Declaring.each {α : Type} {f : α → Pass Block} {entries : List α}
    (hf : ∀ entry ∈ entries, Declaring (f entry)) : Declaring (Pass.each f entries) := by
  induction entries with
  | nil =>
    intro known s b s' h hs
    obtain ⟨rfl, rfl⟩ := runs_each_nil.mp h
    simpa using hs
  | cons entry rest ih =>
    intro known s b s' h
    obtain ⟨first, t, others, hfirst, hrest, rfl⟩ := runs_each_cons.mp h
    exact (hf entry List.mem_cons_self hfirst).append
      (ih (fun other hmem => hf other (List.mem_cons_of_mem _ hmem)) hrest)

end Declared

/-! ## Steps and flows -/

section Steps

variable {ctx : Context} {step : Step} {nested : Flow → Pass Block} {s s' : State} {b : Block}
  {known : List String}

theorem bindingsBlock_items {bindings : Fields} (h : (bindingsBlock ctx bindings).Runs s b s')
    {item : Item} (hi : item ∈ b) :
    (∃ name code, item = .line (.assign name code)) ∨ ∃ text, item = .comment text := by
  obtain ⟨entry, -, t, body, t', hrun, hmem⟩ := mem_each h hi
  obtain ⟨name, code, -, rfl, -⟩ | ⟨text, -, rfl, -⟩ := bindingBlock_spec hrun
  · exact .inl ⟨name, code, List.mem_singleton.mp hmem⟩
  · exact .inr ⟨text, List.mem_singleton.mp hmem⟩

theorem bindingsBlock_bound {bindings : Fields} (h : (bindingsBlock ctx bindings).Runs s b s') :
    blockBound b = blockAssigned b := by
  have hitem : ∀ item ∈ b, item.bound = item.assigned := fun item hi => by
    obtain ⟨name, code, rfl⟩ | ⟨text, rfl⟩ := bindingsBlock_items h hi
    · simp [Item.bound, Item.assigned, Statement.targets]
    · simp [Item.bound, Item.assigned]
  clear h
  induction b with
  | nil => simp
  | cons item items ih =>
    rw [blockBound_cons, blockAssigned_cons, hitem item List.mem_cons_self,
      ih fun other hmem => hitem other (List.mem_cons_of_mem _ hmem)]

theorem BranchesRun.items {merges : Bool} {group : Nat} {named : List NamedBranch}
    (h : BranchesRun nested merges group named s b s') {item : Item} (hi : item ∈ b) :
    item = .blank ∨ ∃ function body, item = .block (.branch function) body := by
  induction h with
  | nil => simp at hi
  | cons hn he hr ih =>
    rcases List.mem_cons.mp hi with rfl | hi
    · exact .inr ⟨_, _, rfl⟩
    · rcases List.mem_cons.mp hi with rfl | hi
      · exact .inl rfl
      · exact ih hi

/-- Whether a statement has a meaning in the body of a function only. -/
def Statement.isOfFunction : Statement → Bool
  | .nonlocals _ | .returns _ => true
  | _ => false

theorem eq_blank_of_mem_afterHoisted {hoisted : Block} {item : Item} (h : item ∈ afterHoisted hoisted) :
    item = .blank := by
  unfold afterHoisted at h
  split_ifs at h
  · simp at h
  · exact List.mem_singleton.mp h

/-- Declarations and returns stand in functions only, and no step leaves one by itself. -/
theorem StepRun.not_ofFunction (h : StepRun nested ctx step s b s') {statement : Statement}
    (hs : statement.isOfFunction = true) : .line statement ∉ b := by
  intro hmem
  -- Every single line that a step leaves is another statement.
  have other {x : Statement} (hx : x.isOfFunction = false) : statement ≠ x := by
    rintro rfl
    rw [hs] at hx
    cases hx
  cases h with
  | assignments hk hc hb run =>
    obtain ⟨name, code, h⟩ | ⟨text, h⟩ := bindingsBlock_items run hmem
    · exact other rfl (Item.line.inj h)
    · simp at h
  | importing hk hc hp run =>
    obtain ⟨name, code, -, rfl, -⟩ | ⟨-, -, ⟨-, rest, rfl⟩ | ⟨-, _, -, rfl⟩⟩ := importBlock_spec run
    all_goals exact other rfl (Item.line.inj (List.mem_singleton.mp hmem))
  | transform hk hr hc hb =>
    rcases List.mem_append.mp hmem with hmem | hmem
    · simp at hmem
    · obtain ⟨code, -, h⟩ := List.mem_map.mp hmem
      exact other rfl (Item.line.inj h).symm
  | call => exact other rfl (Item.line.inj (List.mem_singleton.mp hmem))
  | use => exact other rfl (Item.line.inj (List.mem_singleton.mp hmem))
  | query => exact other rfl (Item.line.inj (List.mem_singleton.mp hmem))
  | perform => exact other rfl (Item.line.inj (List.mem_singleton.mp hmem))
  | bounded =>
    rcases List.mem_cons.mp hmem with h | h
    · exact other rfl (Item.line.inj h)
    · simp at h
  | guarded hk hc hb hn hh hf => cases hh <;> cases hf <;> simp at hmem
  | group hk hr hc he hbranches ho hh hf hb =>
    simp only [List.mem_append] at hmem
    rcases hmem with ((hmem | hmem) | hmem) | hmem
    · obtain ⟨name, -, h⟩ := List.mem_map.mp hmem
      exact other rfl (Item.line.inj h).symm
    · exact absurd (eq_blank_of_mem_afterHoisted hmem) (by simp)
    · obtain h | ⟨function, body, h⟩ := hf.items hmem
      · simp at h
      · simp at h
    · exact other rfl (Item.line.inj (List.mem_singleton.mp hmem))
  | _ => simp at hmem

theorem flowBlock_not_ofFunction {levels : Nat} {flow : Flow} {statement : Statement}
    (h : (flowBlock ctx levels flow).Runs s b s') (hs : statement.isOfFunction = true) :
    .line statement ∉ b := by
  intro hmem
  cases levels with
  | zero =>
    obtain ⟨⟨text, rfl⟩, -⟩ := flowBlock_zero_run h
    simp at hmem
  | succ levels =>
    obtain ⟨entry, -, t, body, t', hrun, hmem⟩ := mem_each h hmem
    obtain ⟨step, -, hrun⟩ | ⟨-, ⟨text, rfl⟩, -⟩ := entry_run hrun
    · exact hrun.not_ofFunction hs hmem
    · simp at hmem

/-- What the walk has found for a branch covers what compiling the branch assigns to and returns. -/
structure NamedBranch.Covers (nested : Flow → Pass Block) (branch : NamedBranch) : Prop where
  assigned : ∀ ⦃s b s'⦄, (nested branch.branch.flow).Runs s b s' → blockAssigned b ⊆ branch.names
  inner : ∀ ⦃s b s' statement⦄, (nested branch.branch.flow).Runs s b s' →
    statement.isOfFunction = true → .line statement ∉ b
  last : ∀ ⦃name⦄, branch.branch.flow.lastBoundName? = .ok (some name) → name ∈ branch.names

theorem branchEnd_returns {merges : Bool} {flow : Flow} {names : List String} {body : Block}
    {value : String} (h : (branchEnd merges flow names body).Runs s b s')
    (hmem : .line (.returns value) ∈ b) : value = "None" ∨ flow.lastBoundName? = .ok (some value) := by
  unfold branchEnd at h
  split_ifs at h
  · simp only [runs_bind, runs_lift, runs_pure] at h
    obtain ⟨last, _, ⟨hlast, -⟩, rfl, -⟩ := h
    obtain rfl : value = last.getD "None" := by simpa using hmem
    cases last with
    | none => exact .inl rfl
    | some name => exact .inr hlast
  · obtain ⟨rfl, -⟩ := runs_pure.mp h
    simp at hmem
  · obtain ⟨rfl, -⟩ := runs_pure.mp h
    simp at hmem

theorem branchEnd_not_nonlocals {merges : Bool} {flow : Flow} {names more : List String} {body : Block}
    (h : (branchEnd merges flow names body).Runs s b s') : .line (.nonlocals more) ∉ b := by
  unfold branchEnd at h
  split_ifs at h
  · simp only [runs_bind, runs_pure] at h
    obtain ⟨_, _, -, rfl, -⟩ := h
    simp
  · obtain ⟨rfl, -⟩ := runs_pure.mp h
    simp
  · obtain ⟨rfl, -⟩ := runs_pure.mp h
    simp

theorem declaredNames_branchHeader {names : List String} {rest : Block}
    (h : ∀ more, .line (.nonlocals more) ∉ rest) : declaredNames (branchHeader names ++ rest) = names := by
  cases names with
  | cons name names => rfl
  | nil =>
    -- Without names there is no line for them, and the rest starts with something else.
    change declaredNames rest = []
    unfold declaredNames
    split
    · exact absurd List.mem_cons_self (h _)
    · rfl

theorem NamedBranch.Covers.declaresNames {branch : NamedBranch} (hc : branch.Covers nested)
    {merges : Bool} {body ending : Block} {t t' : State} (hknown : branch.names ⊆ known)
    (hn : (nested branch.branch.flow).Runs s body s')
    (he : (branchEnd merges branch.branch.flow branch.names body).Runs t ending t') :
    DeclaresNames known (branchHeader branch.names ++ body ++ ending) := by
  have hrest (more : List String) : .line (.nonlocals more) ∉ body ++ ending := fun h => by
    rcases List.mem_append.mp h with h | h
    · exact hc.inner hn rfl h
    · exact branchEnd_not_nonlocals he h
  have hdeclared : declaredNames (branchHeader branch.names ++ body ++ ending) = branch.names := by
    rw [List.append_assoc, declaredNames_branchHeader hrest]
  refine ⟨?_, fun value hmem => ?_, by rwa [hdeclared]⟩
  · rw [hdeclared, blockAssigned_append, blockAssigned_append, assigned_branchHeader, List.nil_append,
      assigned_branchEnd he, List.append_nil]
    exact hc.assigned hn
  · rw [hdeclared]
    simp only [List.mem_append] at hmem
    rcases hmem with (hmem | hmem) | hmem
    · unfold branchHeader at hmem
      split_ifs at hmem <;> simp at hmem
    · exact absurd hmem (hc.inner hn rfl)
    · exact (branchEnd_returns he hmem).imp_right fun h => hc.last h

theorem plain_branchHeader (names : List String) : Plain (branchHeader names) := by
  unfold branchHeader Plain
  split_ifs <;> simp

theorem plain_branchEnd {merges : Bool} {flow : Flow} {names : List String} {body : Block}
    (h : (branchEnd merges flow names body).Runs s b s') : Plain b := by
  unfold branchEnd at h
  split_ifs at h
  · simp only [runs_bind, runs_pure] at h
    obtain ⟨_, _, -, rfl, -⟩ := h
    simp [Plain]
  · obtain ⟨rfl, -⟩ := runs_pure.mp h
    simp [Plain]
  · obtain ⟨rfl, -⟩ := runs_pure.mp h
    simp [Plain]

/-- The functions of a group declare what they assign to, and nothing of what they bind stays. -/
theorem BranchesRun.declares {merges : Bool} {group : Nat} {named : List NamedBranch}
    (hnested : ∀ branch ∈ named, Declaring (nested branch.branch.flow))
    (hcovers : ∀ branch ∈ named, branch.Covers nested) (hknown : ∀ branch ∈ named, branch.names ⊆ known)
    (h : BranchesRun nested merges group named s b s') : Declared known s b s' := by
  induction h with
  | nil => exact Declared.of_plain (by simp [Plain]) (by simp)
  | @cons branch rest body ending others s t s' hn he hr ih =>
    intro hs
    have hrest := ih (fun other h => hnested other (List.mem_cons_of_mem _ h))
      (fun other h => hcovers other (List.mem_cons_of_mem _ h))
      (fun other h => hknown other (List.mem_cons_of_mem _ h)) hs
    have hnames := (hcovers branch List.mem_cons_self).declaresNames
      (hknown branch List.mem_cons_self) hn he
    -- The body of the function starts from the names that are known around it.
    have hheader : Declared known s (branchHeader branch.names) s :=
      Declared.of_plain (plain_branchHeader _) (by simp)
    have hbody := (hheader.append (hnested branch List.mem_cons_self hn)) hs
    simp only [blockDeclares_cons, Item.Declares, Header.targets, Item.bound, List.append_nil,
      blockBound_cons, List.nil_append, blockDeclares_append]
    exact ⟨⟨⟨fun _ _ => hnames, blockDeclares_append.mp hbody.1,
      blockDeclares_of_plain (plain_branchEnd he)⟩, trivial, hrest.1⟩, hrest.2⟩

theorem bound_hoisted (names : List String) : blockBound (names.map fun n => .line (.hoist n)) = names := by
  induction names with
  | nil => simp
  | cons name names ih => simpa [Item.bound, Statement.targets] using ih

/-- What is hoisted binds every name of the branches, or it was in scope before. -/
theorem hoisted_declared {names : List String} {s₁ : State} (ho : s.Opens s₁) (hh : s₁.Binds names s') :
    Declared known s ((distinctFrom s.scope.names names).map (fun n => .line (.hoist n)) ++
      afterHoisted ((distinctFrom s.scope.names names).map fun n => .line (.hoist n))) s' := by
  refine Declared.of_plain (fun header body hmem => ?_) fun n hn => ?_
  · rcases List.mem_append.mp hmem with hmem | hmem
    · simp at hmem
    · exact absurd (eq_blank_of_mem_afterHoisted hmem) (by simp)
  · rw [blockBound_append, bound_hoisted, List.mem_append, List.mem_append, mem_distinctFrom]
    rcases (hh.scope n).mp hn with hn | hn
    · exact .inl (ho.scope ▸ hn)
    · by_cases hs : n ∈ s.scope.names
      · exact .inl hs
      · exact .inr (.inl ⟨hn, hs⟩)

theorem importBlock_declares (imported : Import) (path : String) :
    Declaring (importBlock ctx imported path) := by
  intro known s b s' h
  obtain ⟨name, code, -, rfl, hb⟩ | ⟨-, hb, ⟨-, rest, rfl⟩ | ⟨-, _, -, rfl⟩⟩ := importBlock_spec h
  · exact Declared.of_binds (by simp [Plain]) hb (by simp [Item.bound, Statement.targets])
  · exact Declared.of_binds (by simp [Plain]) hb (by simp)
  · exact Declared.of_binds (by simp [Plain]) hb (by simp)

theorem bindingsBlock_declares (bindings : Fields) : Declaring (bindingsBlock ctx bindings) := by
  intro known s b s' h
  refine Declared.of_binds (fun header body hmem => ?_) (bindingsBlock_binds h) ?_
  · obtain ⟨name, code, h⟩ | ⟨text, h⟩ := bindingsBlock_items h hmem
    · simp at h
    · simp at h
  · rw [bindingsBlock_bound h, bindingsBlock_assigned h]
    exact List.Subset.refl _

theorem HandlerRun.declares {guard : Guard}
    (hnested : ∀ flow, guard.handler = some flow → Declaring (nested flow))
    (h : HandlerRun nested guard s b s') : Declared known s b s' := by
  cases h with
  | handled hf hb hn =>
    exact Declared.block (by simp) hb (by simp [Header.targets]) (hnested _ hf hn).filled
  | absent => exact Declared.of_plain (by simp [Plain]) (by simp)
  | ignored hf hc hb =>
    exact Declared.block (by simp) hb (by simp) (Declared.of_plain (by simp [Plain]) (by simp))

theorem CleanupRun.declares {guard : Guard}
    (hnested : ∀ flow, guard.cleanup = some flow → Declaring (nested flow))
    (h : CleanupRun nested guard s b s') : Declared known s b s' := by
  cases h with
  | cleaned hf hn => exact Declared.block (by simp) (.refl _) (by simp) (hnested _ hf hn).filled
  | absent => exact Declared.of_plain (by simp [Plain]) (by simp)

/-- Every branch function in the block of a step declares its names, if those below it do. -/
theorem StepRun.declares (hnested : ∀ flow ∈ constructFlows step, Declaring (nested flow))
    (hcovers : ∀ parallel named, step.kind = .parallel → Parallel.read? step = some parallel →
      nameBranches ctx parallel = .ok named → ∀ branch ∈ named, branch.Covers nested)
    (h : StepRun nested ctx step s b s') : Declared known s b s' := by
  -- A construct with one body binds the names of its header and goes on with the body.
  have single {flow : Flow} {header : Header} {names : List String} {t t' u : State} {body : Block}
      {known : List String} (hflow : flow ∈ constructFlows step)
      (hh : ∀ function, header ≠ .branch function) (hb : t.Binds names u)
      (hn : names ⊆ header.targets) (hrun : (nested flow).Runs u body t') :
      Declared known t [.block header (filled body)] t' :=
    Declared.block hh hb hn (hnested flow hflow hrun).filled
  cases h with
  | skipped hskip hs => exact Declared.of_plain (by simp [Plain]) (by simp [hs.scope])
  | assignments hk hc hb run => exact bindingsBlock_declares _ run
  | importing hk hc hp run => exact importBlock_declares _ _ run
  | transform hk hr hc hb =>
    exact Declared.of_binds (by simp [Plain]) hb (by simp [Item.bound, Statement.targets])
  | call hk hr hc hb =>
    exact Declared.of_binds (by simp [Plain]) hb (by simp [Item.bound, Statement.targets])
  | use hk hc hb => exact Declared.of_binds (by simp [Plain]) hb (by simp)
  | query hk hr hc hg hb =>
    exact Declared.of_binds (by simp [Plain]) hb (by simp [Item.bound, Statement.targets])
  | perform hk hr hc hg hb => exact Declared.of_binds (by simp [Plain]) hb (by simp)
  | conditional hk hc he hb hn =>
    exact single (by simp [constructFlows, hk]) (by simp) hb (by simp) hn
  | @alternative condition yes no _ s₁ s₂ _ hk hc he hb hy hn =>
    have hyes : Declared known s [.block (.whenTrue condition) (filled yes)] s₂ :=
      single (by simp [constructFlows, hk]) (by simp) hb (by simp) hy
    exact hyes.append (single (by simp [constructFlows, hk]) (by simp) (.refl _) (by simp) hn)
  | forEach hk hr hc hl hi hb hn =>
    exact single (by simp [constructFlows, hk, hr]) (by simp) hb (by simp [Header.targets]) hn
  | forIndexed hk hr hc hl hi hb hn =>
    exact single (by simp [constructFlows, hk, hr]) (by simp) hb (by simp [Header.targets]) hn
  | @bounded loop bound condition body _ s₁ _ hk hr hc hl hb hn =>
    have hstart : Declared known s [.line (.start (counterOf s.scope loop))] s₁ :=
      Declared.of_binds (by simp [Plain]) hb (by simp [Item.bound, Statement.targets])
    refine hstart.append (Declared.block (by simp) (.refl _) (by simp) ?_)
    exact (hnested loop.flow (by simp [constructFlows, hk, hr]) hn).append
      (Declared.of_plain (by simp [Plain]) (by simp))
  | counted hk hr hc hl hb hn =>
    exact single (by simp [constructFlows, hk, hr]) (by simp) hb (by simp [Header.targets]) hn
  | @guarded body handler cleanup _ s₁ s₂ s₃ _ hk hc hb hn hh hf =>
    have hbody : Declared known s [.block .attempt (filled body)] s₂ :=
      single (by simp [constructFlows, hk]) (by simp) hb (by simp) hn
    exact hbody.append
      ((hh.declares fun flow hflow => hnested flow (by simp [constructFlows, hk, hflow])).append
        (hf.declares fun flow hflow => hnested flow (by simp [constructFlows, hk, hflow])))
  | emptyGroup hk hr hc he hb => exact Declared.of_binds (by simp [Plain]) hb (by simp)
  | @group parallel named functions _ s₁ s₂ s₃ _ hk hr hc he hbranches ho hh hf hb =>
    intro hs
    have hhoisted : Declared known s _ s₂ := hoisted_declared ho hh
    have hflows := constructFlows_of_named hk hr hbranches
    have hfunctions : Declared _ s₂ functions s₃ := hf.declares
      (fun branch hmem => hnested _ (by rw [hflows]; exact List.mem_map.mpr ⟨branch, hmem, rfl⟩))
      (hcovers parallel named hk hr hbranches) fun branch hmem n hn => (hhoisted hs).2
        ((hh.scope n).mpr (.inr (List.mem_flatMap.mpr ⟨branch, hmem, hn⟩)))
    exact ((hhoisted.append hfunctions).append
      (Declared.of_binds (by simp [Plain]) hb (by simp [Item.bound, Statement.targets]))) hs

/-- The walk enters at least as many levels of a branch as the pass does. -/
theorem NamedBranch.covers {branch : NamedBranch} {levels walk : Nat} (hlt : levels < walk)
    (hfound : branch.branch.flow.boundNames false walk = .ok branch.names)
    (hnames : ∀ step ∈ branch.branch.flow.steps (fun _ => true) levels, step.namesResults = true) :
    branch.Covers (flowBlock ctx levels) where
  assigned s b s' hrun n hn := by
    obtain ⟨step, hstep, hbinds⟩ := flowBlock_assigned hnames hrun n hn
    exact mem_boundNames hfound (steps_mono (Nat.le_of_lt hlt) _ hstep) hbinds
  inner s b s' statement hrun hs := flowBlock_not_ofFunction hrun hs
  last name hlast := by
    obtain ⟨entry, hentry, step, hstep, hbinds⟩ := stepBinds_of_lastBoundName? hlast
    obtain ⟨more, rfl⟩ : ∃ k, walk = k + 1 := ⟨walk - 1, by omega⟩
    exact mem_boundNames hfound (step_mem_steps _ hentry hstep) hbinds

theorem flowBlock_declares {levels walk : Nat} {flow : Flow} (hwalk : ctx.settings.walkLevels = .ok walk)
    (hle : levels ≤ walk)
    (hnames : ∀ step ∈ flow.steps (fun _ => true) levels, step.namesResults = true) :
    Declaring (flowBlock ctx levels flow) := by
  induction levels generalizing flow with
  | zero =>
    intro known s b s' h
    obtain ⟨⟨text, rfl⟩, hb⟩ := flowBlock_zero_run h
    exact Declared.of_binds (by simp [Plain]) hb (by simp)
  | succ levels ih =>
    refine Declaring.each fun entry hentry known s b s' h => ?_
    obtain ⟨step, hstep, hrun⟩ | ⟨-, ⟨text, rfl⟩, hskips⟩ := entry_run h
    · cases hskip : step.isSkipped with
      | true =>
        obtain ⟨⟨text, rfl⟩, hskips⟩ := hrun.of_isSkipped hskip
        exact Declared.of_plain (by simp [Plain]) (by simp [hskips.scope])
      | false =>
        have below {flow' : Flow} (hflow : flow' ∈ constructFlows step) :
            ∀ x ∈ flow'.steps (fun _ => true) levels, x.namesResults = true := fun x hx =>
          hnames x (steps_of_constructFlows hentry hstep hskip hflow hx)
        change Declared known { s with handed := s.handed ++ [step] } b s'
        refine hrun.declares (fun flow' hflow => ih (by omega) (below hflow)) ?_
        intro parallel named hk hr hbranches branch hmem
        obtain ⟨found, hfound, hbound⟩ := (nameBranches_spec hbranches).2 branch hmem
        obtain rfl := Except.ok.inj (hwalk.symm.trans hfound)
        refine NamedBranch.covers (by omega) hbound (below ?_)
        rw [constructFlows_of_named hk hr hbranches]
        exact List.mem_map.mpr ⟨branch, hmem, rfl⟩
    · exact Declared.of_plain (by simp [Plain]) (by simp [hskips.scope])

end Steps

/-! ## Documents -/

end FlowScript.Program

namespace FlowScript

theorem Number.Exact.floor_le_ceiling (v : Number.Exact) : v.floor ≤ v.ceiling := by
  have hpos : (0 : Int) < v.denominator := by
    unfold denominator
    exact_mod_cast Nat.pow_pos (by decide)
  unfold floor ceiling
  rw [Int.fdiv_eq_ediv_of_nonneg _ (Int.le_of_lt hpos), Int.fdiv_eq_ediv_of_nonneg _ (Int.le_of_lt hpos)]
  have hdown := Int.ediv_mul_le v.signed (Int.ne_of_gt hpos)
  have hup := Int.ediv_mul_le (-v.signed) (Int.ne_of_gt hpos)
  have hle : (v.signed / v.denominator) * v.denominator ≤
      (-(-v.signed / v.denominator)) * v.denominator := by
    rw [Int.neg_mul]
    omega
  exact Int.le_of_mul_le_mul_right hle hpos

/-- The walk enters at least as many levels as may be indented. -/
theorem Limit.exists_levels {limit : Limit} {most : Int} (h : limit.most = .ok most) :
    ∃ levels, limit.levels = .ok levels ∧ most.toNat ≤ levels := by
  unfold Limit.most Limit.rounded at h
  unfold Limit.levels Limit.rounded
  split at h
  · obtain rfl := Except.ok.inj h
    exact ⟨_, rfl, Nat.le_refl _⟩
  · obtain rfl := Except.ok.inj h
    exact ⟨_, rfl, Nat.le_refl _⟩
  · split at h
    · obtain rfl := Except.ok.inj h
      exact ⟨_, rfl, Nat.le_refl _⟩
    · obtain rfl := Except.ok.inj h
      exact ⟨_, rfl, Nat.le_refl _⟩
    · obtain rfl := Except.ok.inj h
      exact ⟨_, rfl, Int.toNat_le_toNat (Number.Exact.floor_le_ceiling _)⟩
  · cases h

namespace Program

open Construct Pass

/-- Every action, call and transform that the walk comes to leaves its result under a name that can be
written. -/
def NamesResults (settings : Settings) (document : Fields) : Prop :=
  ∀ levels, settings.walkLevels = .ok levels →
    ∀ visit ∈ Walk.visits ((Value.map document).walkTasks (fun _ => true) levels),
      visit.step.namesResults = true

section Documents

variable {ctx : Context} {document : Fields}

theorem namesResults_of_task {levels i : Nat} {task : Value} {flow : Flow}
    (hnames : NamesResults ctx.settings document) (hlevels : ctx.settings.walkLevels = .ok levels)
    (htask : (task, i) ∈ (document.get "tasks").items.zipIdx) (hflow : task.taskFlow? = some flow) :
    ∀ step ∈ flow.steps (fun _ => true) levels, step.namesResults = true := by
  intro step hstep
  rw [← Flow.visits_walk _ _ _ (taskFlowPath i)] at hstep
  obtain ⟨visit, hvisit, rfl⟩ := List.mem_map.mp hstep
  refine hnames levels hlevels visit ?_
  rw [Value.walkTasks_eq, Flow.visits_flatMap]
  refine List.mem_flatMap.mpr ⟨(task, i), htask, ?_⟩
  simpa only [hflow] using hvisit

theorem flowAt_declares {level : Int} {flow : Flow} (hlevel : 1 ≤ level)
    (hnames : ∀ levels, ctx.settings.walkLevels = .ok levels →
      ∀ step ∈ flow.steps (fun _ => true) levels, step.namesResults = true) :
    Declaring (flowAt ctx level flow) := by
  intro known s b s' h
  simp only [flowAt, levelsFrom, runs_bind, runs_lift] at h
  obtain ⟨left, _, ⟨hleft, rfl⟩, h⟩ := h
  obtain ⟨most, hmost, hleft⟩ := bind_eq_ok.mp hleft
  obtain rfl := Except.ok.inj hleft
  obtain ⟨levels, hlevels, hle⟩ := Limit.exists_levels hmost
  have hle : (most + 1 - level).toNat ≤ levels := by omega
  exact flowBlock_declares hlevels hle
    (fun step hstep => hnames levels hlevels step (steps_mono hle _ hstep)) h

theorem documentImport_declares (entry : Value) : Declaring (documentImport ctx entry) := by
  intro known s b s' h
  unfold documentImport at h
  split at h
  · unfold entryBlock at h
    split_ifs at h
    · obtain ⟨name, t, hn, h⟩ := runs_bind.mp h
      obtain ⟨-, hb⟩ := importName_spec hn
      have hnothing : Declared known s [] t := Declared.of_binds (by simp [Plain]) hb (by simp)
      cases name with
      | none => simpa using hnothing.append (importBlock_declares _ _ h)
      | some bound =>
        simp only [runs_bind, runs_pure] at h
        obtain ⟨_, _, hd, code, _, hv, rfl, rfl⟩ := h
        exact Declared.of_binds (by simp [Plain])
          ((hb.trans (binds_of_declare hd)).trans (valueCode_quiet _ _ hv))
          (by simp [Item.bound, Statement.targets])
    · exact importBlock_declares _ _ h
  · simp only [jsonOf, runs_bind, runs_lift, runs_pure] at h
    obtain ⟨quoted, _, ⟨-, rfl⟩, _, _, hw, rfl, rfl⟩ := h
    exact Declared.of_binds (by simp [Plain]) (Quiet.warn _ hw) (by simp)

theorem prologue_declares (document : Fields) : Declaring (prologue ctx document) := by
  intro known s b s' h
  simp only [prologue, runs_bind, runs_pure] at h
  obtain ⟨imports, t, hi, globals, _, hg, rfl, rfl⟩ := h
  have hblock : Declared known s (imports ++ globals) s' :=
    (Declaring.each (fun entry _ => documentImport_declares entry) hi).append
      (bindingsBlock_declares _ hg)
  split_ifs with hempty
  · rwa [List.isEmpty_iff.mp hempty] at hblock
  · exact hblock.append (Declared.of_plain (by simp [Plain]) (by simp))

theorem outputBlock_declares (output : Value) : Declaring (outputBlock ctx output) := by
  intro known s b s' h
  unfold outputBlock at h
  split_ifs at h
  · obtain ⟨rfl, rfl⟩ := runs_pure.mp h
    exact Declared.of_plain (by simp [Plain]) (by simp)
  · simp only [runs_bind, runs_pure] at h
    obtain ⟨_, _, hw, rfl, rfl⟩ := h
    exact Declared.of_binds (by simp [Plain]) (Quiet.warn _ hw) (by simp)
  · dsimp only at h
    split at h
    · simp only [runs_bind, runs_pure] at h
      obtain ⟨_, _, hl, _, _, hw, rfl, rfl⟩ := h
      exact Declared.of_binds (by simp [Plain]) ((Quiet.lift _ hl).trans (Quiet.warn _ hw)) (by simp)
    · simp only [runs_bind, runs_pure] at h
      obtain ⟨_, _, hr, _, _, hv, rfl, rfl⟩ := h
      exact Declared.of_binds (by simp [Plain])
        ((Quiet.requireHelper _ hr).trans (valueCode_quiet _ _ hv)) (by simp)

theorem taskFlowBlock_declares {task : Value} {name : String} {flow : Flow}
    (hnames : ∀ levels, ctx.settings.walkLevels = .ok levels →
      ∀ step ∈ flow.steps (fun _ => true) levels, step.namesResults = true) :
    Declaring (taskFlowBlock ctx task name flow) := by
  intro known s b s' h
  unfold taskFlowBlock at h
  split at h
  · simp only [runs_bind, runs_pure] at h
    obtain ⟨_, t, hr, body, _, hbody, rfl, rfl⟩ := h
    have hattempt : Declared known s [.block .attempt (filled body)] s' :=
      Declared.block (by simp) (Quiet.requireHelper _ hr) (by simp)
        (flowAt_declares (by decide) hnames hbody).filled
    refine hattempt.append (Declared.block (by simp) (.refl _) (by simp) ?_)
    exact Declared.of_plain (by simp [Plain]) (by simp)
  · exact flowAt_declares (by decide) hnames h

theorem taskBlock_declares {total i : Nat} {task : Value} (hnames : NamesResults ctx.settings document)
    (htask : (task, i) ∈ (document.get "tasks").items.zipIdx) :
    Declaring (taskBlock ctx total (task, i)) := by
  intro known s b s' h
  have htitle {known : List String} {s : State} (name : String) :
      Declared known s (taskTitle name i total) s := by
    refine Declared.of_plain ?_ (by simp)
    unfold taskTitle Plain
    split_ifs <;> simp
  simp only [taskBlock] at h
  cases hflow : task.taskFlow? with
  | none =>
    simp only [hflow, runs_bind, runs_pure] at h
    obtain ⟨_, _, hw, rfl, rfl⟩ := h
    exact (htitle _).append (Declared.of_binds (by simp [Plain]) (Quiet.warn _ hw) (by simp))
  | some flow =>
    simp only [hflow, runs_bind, runs_pure] at h
    obtain ⟨body, _, hbody, output, _, houtput, rfl, rfl⟩ := h
    have hflowBlock : Declaring (taskFlowBlock ctx task (taskName task i) flow) :=
      taskFlowBlock_declares fun levels hlevels => namesResults_of_task hnames hlevels htask hflow
    exact ((htitle _).append (hflowBlock hbody)).append (outputBlock_declares _ houtput)

theorem documentBlock_declares (hnames : NamesResults ctx.settings document) :
    Declaring (documentBlock ctx document) := by
  intro known s b s' h
  simp only [documentBlock, runs_bind, runs_pure] at h
  obtain ⟨first, t, hfirst, body, _, hbody, rfl, rfl⟩ := h
  exact (prologue_declares document hfirst).append
    (Declaring.each (fun numbered htask => taskBlock_declares hnames htask) hbody)

end Documents

end Program

open Program Program.Pass

/-- If all results of the document have names that can be written, then in the compiled program every
branch function declares the names that it or a function inside it assigns to, returns one of these,
and declares only names that the functions around it bind before it. -/
theorem branch_declares_names {tree : File.Tree} {settings : Settings} {request : Compilation.Request}
    {compilation : Compilation} (h : compile tree settings request = .ok compilation) :
    ∃ loaded fields block state, request.source.load tree settings = .ok loaded ∧
      loaded.document.fields? = some fields ∧
      (documentBlock (request.context settings) fields).run {} = .ok (block, state) ∧
      LaysOut (request.context settings) (filled block) compilation.code ∧
      (NamesResults settings fields → ∀ function body enclosing,
        BranchAt function body []
          [.block (.run (request.context settings).agent.name) (filled block)] enclosing →
        blockAssigned body ⊆ declaredNames body ∧
        (∀ value, .line (.returns value) ∈ body → value = "None" ∨ value ∈ declaredNames body) ∧
        declaredNames body ⊆ enclosing) := by
  obtain ⟨loaded, fields, block, state, hloaded, hfields, hrun, hcode⟩ := compile_eq_ok h
  refine ⟨loaded, fields, block, state, hloaded, hfields, hrun, hcode, ?_⟩
  intro hnames function body enclosing hat
  -- The function that runs the flow starts with nothing in scope.
  have hdeclared : Declared [] {}
      [.block (.run (request.context settings).agent.name) (filled block)] state :=
    Declared.block (by simp) (.refl _) (by simp) (documentBlock_declares hnames hrun).filled
  have hbranch := declaresNames_of_branchAt hat (hdeclared (by simp)).1
  exact ⟨hbranch.assigned, hbranch.returned, hbranch.known⟩

/-- A group in a branch of a group, where the inner one merges its results. -/
def nestedGroups : Flow :=
  [.map [(.text "parallel", .map [(.text "tasks", .list [.map [(.text "flow", .list
    [.map [(.text "parallel", .map [(.text "waitAll", .bool true), (.text "tasks", .list
      [.map [(.text "name", .text "x"), (.text "flow", .list
        [.map [(.text "variables", .map [(.text "a", .bool true)])]])]])])]])]])])]]

/-- The function of the inner branch. -/
def innerBody : Block := [.line (.nonlocals ["a"]), .line (.assign "a" "True"), .line (.returns "a")]

/-- The function of the outer branch. -/
def outerBody : Block :=
  [.line (.nonlocals ["x", "a"]), .block (.branch "_parallel_2_branch_0") innerBody, .blank,
   .line (.join ["x"] ["_parallel_2_branch_0"])]

def nestedBlock : Block :=
  [.line (.hoist "x"), .line (.hoist "a"), .blank, .block (.branch "_parallel_1_branch_0") outerBody,
   .blank, .line (.join [] ["_parallel_1_branch_0"])]

theorem innerBody_branchAt : BranchAt "_parallel_2_branch_0" innerBody []
    [.block (.run "agent") (filled nestedBlock)] ["x", "a"] := by
  have hinner : BranchAt "_parallel_2_branch_0" innerBody ["x", "a"] outerBody ["x", "a"] :=
    @BranchAt.here _ _ ["x", "a"] [.line (.nonlocals ["x", "a"])] _
  have houter : BranchAt "_parallel_2_branch_0" innerBody [] nestedBlock ["x", "a"] :=
    @BranchAt.inside _ _ [] _ _ [.line (.hoist "x"), .line (.hoist "a"), .blank] _ _ hinner
  exact @BranchAt.inside _ _ [] _ _ [] _ _ houter

theorem nestedGroups_branch_declares_names :
    ∃ compilation state,
      compile { here := ⟨true, [], false⟩ } {}
        { source := .value (.map (oneTask nestedGroups)), template := .text "module" } = .ok compilation ∧
      (documentBlock {} (oneTask nestedGroups)).run {} = .ok (nestedBlock, state) ∧
      NamesResults {} (oneTask nestedGroups) ∧
      BranchAt "_parallel_2_branch_0" innerBody [] [.block (.run "agent") (filled nestedBlock)] ["x", "a"] ∧
      blockAssigned innerBody ⊆ declaredNames innerBody ∧ declaredNames innerBody ⊆ ["x", "a"] := by
  have hok : (compile { here := ⟨true, [], false⟩ } {}
      { source := .value (.map (oneTask nestedGroups)), template := .text "module" }).toOption.isSome =
        true := by decide +kernel
  have hnames : NamesResults {} (oneTask nestedGroups) := by
    intro levels hlevels
    obtain rfl := Except.ok.inj hlevels
    exact List.all_eq_true.mp (by decide +kernel)
  have hblock : ∃ state, (documentBlock {} (oneTask nestedGroups)).run {} = .ok (nestedBlock, state) :=
    ⟨_, rfl⟩
  cases hc : compile { here := ⟨true, [], false⟩ } {}
      { source := .value (.map (oneTask nestedGroups)), template := .text "module" } with
  | error e => simp [hc, Except.toOption] at hok
  | ok compilation =>
    obtain ⟨loaded, fields, block, state, hloaded, hfields, hrun, -, hbranches⟩ := branch_declares_names hc
    obtain rfl := Except.ok.inj hloaded
    obtain rfl := Option.some.inj hfields
    obtain ⟨last, hlast⟩ := hblock
    obtain ⟨rfl, rfl⟩ := Prod.mk.inj (Except.ok.inj (hrun.symm.trans hlast))
    obtain ⟨hassigned, -, hknown⟩ := hbranches hnames _ _ _ innerBody_branchAt
    exact ⟨compilation, state, rfl, hrun, hnames, innerBody_branchAt, hassigned, hknown⟩

end FlowScript
