import FlowScript.Program.Flow
import Mathlib.Data.List.Forall2
import Mathlib.Tactic.SplitIfs

/-!
# Runs of a pass

A pass that ends without a fault relates the state before it to a result and the state after it. Most
of what a pass does leaves the scope, the number of groups and the record of steps alone: it asks for
imports and helpers, or it warns. Such a pass is quiet, and only the others matter for the shape of the
program.
-/
namespace FlowScript

section Results

variable {ε α β : Type}

theorem bind_eq_ok {x : Except ε α} {f : α → Except ε β} {b : β} :
    (x >>= f) = .ok b ↔ ∃ a, x = .ok a ∧ f a = .ok b := by
  cases x with
  | error e => simp [bind, Except.bind]
  | ok a => simp [bind, Except.bind]

theorem bind_eq_error {x : Except ε α} {f : α → Except ε β} {e : ε} :
    (x >>= f) = .error e ↔ x = .error e ∨ ∃ a, x = .ok a ∧ f a = .error e := by
  cases x with
  | error e' => simp [bind, Except.bind]
  | ok a => simp [bind, Except.bind]

/-- A list of results that are all there holds the result of every element, in order. -/
theorem forall₂_of_mapM {f : α → Except ε β} {xs : List α} {ys : List β} (h : xs.mapM f = .ok ys) :
    List.Forall₂ (fun x y => f x = .ok y) xs ys := by
  induction xs generalizing ys with
  | nil =>
    obtain rfl := Except.ok.inj h
    exact .nil
  | cons x rest ih =>
    rw [List.mapM_cons] at h
    obtain ⟨y, hy, h⟩ := bind_eq_ok.mp h
    obtain ⟨others, hothers, h⟩ := bind_eq_ok.mp h
    obtain rfl := Except.ok.inj h
    exact .cons hy (ih hothers)

theorem exists_result_of_mem {f : α → Except ε β} {xs : List α} {ys : List β} (h : xs.mapM f = .ok ys)
    {x : α} (hx : x ∈ xs) : ∃ y ∈ ys, f x = .ok y := by
  have hall := forall₂_of_mapM h
  clear h
  induction hall with
  | nil => simp at hx
  | @cons a b rest others hab _ ih =>
    rcases List.mem_cons.mp hx with rfl | hx
    · exact ⟨b, List.mem_cons_self, hab⟩
    · obtain ⟨y, hy, hxy⟩ := ih hx
      exact ⟨y, List.mem_cons_of_mem _ hy, hxy⟩

theorem exists_of_result_mem {f : α → Except ε β} {xs : List α} {ys : List β} (h : xs.mapM f = .ok ys)
    {y : β} (hy : y ∈ ys) : ∃ x ∈ xs, f x = .ok y := by
  have hall := forall₂_of_mapM h
  clear h
  induction hall with
  | nil => simp at hy
  | @cons a b rest others hab _ ih =>
    rcases List.mem_cons.mp hy with rfl | hy
    · exact ⟨a, List.mem_cons_self, hab⟩
    · obtain ⟨x, hx, hxy⟩ := ih hy
      exact ⟨x, List.mem_cons_of_mem _ hx, hxy⟩

theorem exists_results {f : α → Except ε β} {xs : List α} (h : ∀ x ∈ xs, ∃ y, f x = .ok y) :
    ∃ ys, xs.mapM f = .ok ys := by
  induction xs with
  | nil => exact ⟨[], rfl⟩
  | cons x rest ih =>
    obtain ⟨y, hy⟩ := h x List.mem_cons_self
    obtain ⟨ys, hys⟩ := ih fun x hx => h x (List.mem_cons_of_mem _ hx)
    exact ⟨y :: ys, by rw [List.mapM_cons, hy, hys]; rfl⟩

/-- Where results are missing, one element is to blame. -/
theorem exists_error_of_mapM {f : α → Except ε β} {xs : List α} {e : ε} (h : xs.mapM f = .error e) :
    ∃ x ∈ xs, f x = .error e := by
  induction xs with
  | nil => cases h
  | cons x rest ih =>
    rw [List.mapM_cons] at h
    cases hx : f x with
    | error e' =>
      rw [hx] at h
      cases h
      exact ⟨x, List.mem_cons_self, hx⟩
    | ok y =>
      cases hrest : rest.mapM f with
      | error e' =>
        rw [hx, hrest] at h
        cases h
        obtain ⟨x', hx', he⟩ := ih hrest
        exact ⟨x', List.mem_cons_of_mem _ hx', he⟩
      | ok ys =>
        rw [hx, hrest] at h
        cases h

end Results

namespace Program

namespace Scope

theorem contains_iff {scope : Scope} {name : String} :
    scope.contains name = true ↔ name ∈ scope.names := List.contains_iff_mem

@[simp] theorem mem_declare {scope : Scope} {name n : String} :
    n ∈ (scope.declare name).names ↔ n ∈ scope.names ∨ n = name := by
  unfold declare
  split_ifs with h
  · constructor
    · exact Or.inl
    · rintro (hn | rfl)
      · exact hn
      · exact contains_iff.mp h
  · simp

end Scope

namespace Pass

/-- A run of a pass that ends without a fault. -/
def Runs {α : Type} (p : Pass α) (s : State) (a : α) (s' : State) : Prop :=
  p.run s = .ok (a, s')

section Runs

variable {α β : Type} {s s' : State}

@[simp] theorem runs_pure {a b : α} : (pure a : Pass α).Runs s b s' ↔ b = a ∧ s' = s := by
  change Except.ok (a, s) = .ok (b, s') ↔ _
  simp [eq_comm]

@[simp] theorem runs_bind {p : Pass α} {f : α → Pass β} {b : β} :
    (p >>= f).Runs s b s' ↔ ∃ a t, p.Runs s a t ∧ (f a).Runs t b s' := by
  simp only [Runs, StateT.run_bind]
  cases h : p.run s with
  | error f => simp [bind, Except.bind]
  | ok r =>
    obtain ⟨a, t⟩ := r
    constructor
    · intro hf
      exact ⟨a, t, rfl, hf⟩
    · rintro ⟨_, _, ⟨⟩, hf⟩
      exact hf

@[simp] theorem runs_lift {e : Except Fault α} {a : α} :
    (liftM e : Pass α).Runs s a s' ↔ e = .ok a ∧ s = s' := by
  cases e with
  | error f =>
    change Except.error f = Except.ok (a, s') ↔ _
    simp
  | ok b =>
    change Except.ok (b, s) = Except.ok (a, s') ↔ _
    simp

@[simp] theorem runs_modify {f : State → State} {u : PUnit} :
    (modify f : Pass PUnit).Runs s u s' ↔ s' = f s := by
  change Except.ok (PUnit.unit, f s) = .ok (u, s') ↔ _
  simp [eq_comm]

@[simp] theorem runs_get {a : State} : (get : Pass State).Runs s a s' ↔ s = a ∧ s = s' := by
  change Except.ok (s, s) = .ok (a, s') ↔ _
  simp

/-- A pass that is evaluated to an answer has a run. -/
theorem exists_runs_of_isSome {p : Pass α} (h : (p.run s).toOption.isSome = true) : ∃ a s', p.Runs s a s' := by
  cases hrun : p.run s with
  | error f =>
    rw [hrun] at h
    cases h
  | ok r => exact ⟨r.1, r.2, hrun⟩

@[simp] theorem runs_each_nil {f : α → Pass Block} {b : Block} :
    (each f []).Runs s b s' ↔ b = [] ∧ s' = s := runs_pure

@[simp] theorem runs_each_cons {f : α → Pass Block} {a : α} {rest : List α} {b : Block} :
    (each f (a :: rest)).Runs s b s' ↔
      ∃ first t others, (f a).Runs s first t ∧ (each f rest).Runs t others s' ∧
        b = first ++ others := by
  simp only [each, runs_bind, runs_pure]
  constructor
  · rintro ⟨first, t, hf, others, u, hr, rfl, rfl⟩
    exact ⟨first, t, others, hf, hr, rfl⟩
  · rintro ⟨first, t, others, hf, hr, rfl⟩
    exact ⟨first, t, hf, others, s', hr, rfl, rfl⟩

end Runs

/-- The only names that come into scope from one state to the next are the given ones, and no group is
opened and no step recorded. Needs and warnings may change. -/
structure State.Binds (names : List String) (s s' : State) : Prop where
  scope : ∀ n, n ∈ s'.scope.names ↔ n ∈ s.scope.names ∨ n ∈ names
  groups : s'.groups = s.groups
  handed : s'.handed = s.handed
  skipped : s'.skipped = s.skipped

namespace State.Binds

variable {s s' s'' : State} {names more : List String}

protected theorem refl (s : State) : s.Binds [] s := ⟨by simp, rfl, rfl, rfl⟩

protected theorem trans (h : s.Binds names s') (h' : s'.Binds more s'') :
    s.Binds (names ++ more) s'' where
  scope n := by rw [h'.scope, h.scope, List.mem_append, or_assoc]
  groups := h'.groups.trans h.groups
  handed := h'.handed.trans h.handed
  skipped := h'.skipped.trans h.skipped

end State.Binds

theorem binds_of_declare {name : String} {s s' : State} {u : Unit} (h : (declare name).Runs s u s') :
    s.Binds [name] s' := by
  obtain rfl := runs_modify.mp h
  exact ⟨fun n => by simp [Scope.mem_declare], rfl, rfl, rfl⟩

theorem binds_of_declareAll {names : List String} {s s' : State} {u : Unit}
    (h : (declareAll names).Runs s u s') : s.Binds names s' := by
  induction names generalizing s with
  | nil =>
    obtain ⟨-, rfl⟩ := runs_pure.mp h
    exact .refl _
  | cons name rest ih =>
    obtain ⟨_, t, h₁, h₂⟩ := runs_bind.mp h
    exact (binds_of_declare h₁).trans (ih h₂)

/-- A pass that binds no name and records no step. -/
def Quiet {α : Type} (p : Pass α) : Prop :=
  ∀ ⦃s : State⦄ ⦃a : α⦄ ⦃s' : State⦄, p.Runs s a s' → s.Binds [] s'

namespace Quiet

variable {α β : Type}

protected theorem lift (e : Except Fault α) : Quiet (liftM e : Pass α) := by
  intro s a s' h
  obtain ⟨-, rfl⟩ := runs_lift.mp h
  exact .refl _

protected theorem warn (message : String) : Quiet (warn message) := by
  intro s u s' h
  obtain rfl := runs_modify.mp h
  exact ⟨by simp, rfl, rfl, rfl⟩

protected theorem requireImport (statement : String) : Quiet (requireImport statement) := by
  intro s u s' h
  obtain rfl := runs_modify.mp h
  exact ⟨by simp, rfl, rfl, rfl⟩

protected theorem requireHelper (helper : Helper) : Quiet (requireHelper helper) := by
  intro s u s' h
  obtain rfl := runs_modify.mp h
  exact ⟨by simp, rfl, rfl, rfl⟩

end Quiet

/-! ## Shared passes -/

theorem valueCode_eq {ctx : Context} {v : Value} {code : String} {s s' : State}
    (h : (valueCode ctx v).Runs s code s') :
    ∃ n, ctx.settings.maxResolveDepth.most = .ok n ∧ code = Literal.code n v ctx.agent.lookup := by
  simp only [valueCode, runs_bind] at h
  obtain ⟨_, _, -, h⟩ := h
  split_ifs at h
  · simp only [runs_bind, runs_lift, runs_pure] at h
    obtain ⟨_, _, -, n, _, ⟨hn, -⟩, rfl, -⟩ := h
    exact ⟨n, hn, rfl⟩
  · simp only [runs_bind, runs_lift, runs_pure] at h
    obtain ⟨n, _, ⟨hn, -⟩, rfl, -⟩ := h
    exact ⟨n, hn, rfl⟩

theorem identifier?_eq_some {v : Value} {name : String} (h : v.identifier? = some name) :
    v = .text name ∧ isIdentifier name = true := by
  cases v with
  | text s =>
    simp only [Value.identifier?] at h
    split_ifs at h with hs
    obtain rfl := Option.some.inj h
    exact ⟨rfl, hs⟩
  | _ => simp [Value.identifier?] at h

theorem ne_empty_of_isIdentifier {name : String} (h : isIdentifier name = true) : name ≠ "" := by
  rintro rfl
  exact absurd h (by decide)

/-- The name that a value spells, or else the given one. -/
def nameOr (v : Value) (fallback : String) : String := v.identifier?.getD fallback

theorem targetName_spec {v : Value} {fallback what name : String} {s s' : State}
    (h : (targetName v fallback what).Runs s name s') : name = nameOr v fallback ∧ s.Binds [] s' := by
  unfold targetName at h
  unfold nameOr
  cases hv : v.identifier? with
  | some n =>
    rw [hv] at h
    obtain ⟨rfl, rfl⟩ := runs_pure.mp h
    exact ⟨rfl, .refl _⟩
  | none =>
    rw [hv] at h
    dsimp only at h
    split_ifs at h
    · simp only [runs_bind, runs_pure] at h
      obtain ⟨_, t, hl, _, u, hw, rfl, rfl⟩ := h
      exact ⟨rfl, (Quiet.lift _ hl).trans (Quiet.warn _ hw)⟩
    · obtain ⟨rfl, rfl⟩ := runs_pure.mp h
      exact ⟨rfl, .refl _⟩

end Pass

end Program

end FlowScript
