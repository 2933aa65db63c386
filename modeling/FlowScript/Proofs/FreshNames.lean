import FlowScript.Proofs.Pass
import Mathlib.Data.List.Nodup
import Mathlib.Data.List.Perm.Subperm
import Mathlib.Order.Bounds.Defs

/-!
# Fresh names

A fresh name is looked for among the candidates for a base: the base itself, then the base with 1, 2, 3 and so on.
The search goes on while a candidate is taken, and nothing in it counts down. It ends because different numbers are
written differently, so that each turn passes over another name of the scope, and the bounded look-up finds what the
search finds. A fresh name is declared at once and no declaration takes a name away. So the fresh names that are
asked for one after the other are different, whatever is declared between them.
-/
namespace FlowScript

/-! ## Candidates -/

namespace Number

theorem natText_injective : Function.Injective natText := by
  intro m n h
  have hdigits : Nat.toDigits 10 m = Nat.toDigits 10 n := by
    have hlists := congrArg String.toList h
    simpa only [natText, digits, String.toList_ofList] using hlists
  have hread := congrArg (Nat.ofDigitChars 10 · 0) hdigits
  simpa only [Nat.ofDigitChars_toDigits (by decide : 1 < 10) (Nat.le_refl 10)] using hread

end Number

namespace Program

namespace Scope

variable {scope : Scope} {base : String}

theorem candidate_injective (base : String) : Function.Injective (candidate base) := by
  intro i j h
  have hne (k : Nat) : base ≠ base ++ "_" ++ Number.natText (k + 1) := by
    intro he
    have hlength := congrArg String.length he
    simp only [String.length_append] at hlength
    have hone : "_".length = 1 := rfl
    omega
  cases i with
  | zero =>
    cases j with
    | zero => rfl
    | succ j => exact absurd h (hne j)
  | succ i =>
    cases j with
    | zero => exact absurd h.symm (hne i)
    | succ j => exact Number.natText_injective ((String.append_right_inj _).mp h)

/-- Candidates that are all taken are no more than the names in scope. -/
theorem le_length_of_taken {k : Nat} (h : ∀ j < k, candidate base j ∈ scope.names) : k ≤ scope.names.length := by
  have hnodup : ((List.range k).map (candidate base)).Nodup := List.nodup_range.map (candidate_injective base)
  have htaken : (List.range k).map (candidate base) ⊆ scope.names := by
    intro name hname
    obtain ⟨j, hj, rfl⟩ := List.mem_map.mp hname
    exact h j (List.mem_range.mp hj)
  simpa using hnodup.length_le_of_subset htaken

/-- The candidate with this number is not taken, and all before it are. -/
structure FirstFree (scope : Scope) (base : String) (k : Nat) : Prop where
  free : candidate base k ∉ scope.names
  taken : ∀ j < k, candidate base j ∈ scope.names

namespace FirstFree

variable {k : Nat}

theorem freshName_eq (h : scope.FirstFree base k) : scope.freshName base = candidate base k := by
  have hfind : (List.range (scope.names.length + 1)).find? ((fun name => !scope.contains name) ∘ candidate base) =
      some k := by
    refine List.find?_range_eq_some.mpr ⟨?_, ?_, fun j hj => ?_⟩
    · simpa [← contains_iff] using h.free
    · exact List.mem_range.mpr (Nat.lt_succ_of_le (le_length_of_taken h.taken))
    · simpa [contains_iff] using h.taken j hj
  rw [freshName, List.find?_map, hfind, Option.map_some, Option.getD_some]

/-- The first free candidate is the base if that is free, or else has the least number that makes it free. -/
theorem base_or_numbered (h : scope.FirstFree base k) :
    base ∉ scope.names ∧ candidate base k = base ∨
    base ∈ scope.names ∧ ∃ n, IsLeast {n | 1 ≤ n ∧ base ++ "_" ++ Number.natText n ∉ scope.names} n ∧
      candidate base k = base ++ "_" ++ Number.natText n := by
  cases k with
  | zero => exact .inl ⟨h.free, rfl⟩
  | succ k =>
    refine .inr ⟨h.taken 0 (Nat.zero_lt_succ k), k + 1, ⟨⟨Nat.succ_pos k, h.free⟩, ?_⟩, rfl⟩
    rintro n ⟨hn, hfree⟩
    obtain ⟨n, rfl⟩ := Nat.exists_eq_succ_of_ne_zero (Nat.one_le_iff_ne_zero.mp hn)
    exact Nat.le_of_not_lt fun hlt => hfree (h.taken (n + 1) hlt)

end FirstFree

/-! ## The search -/

/-- The name that the search looks at, and the number it came to. -/
structure Attempt where
  name : String
  number : Nat

namespace Attempt

/-- The search starts with the base. -/
def first (base : String) : Attempt := ⟨base, 0⟩

/-- One turn of the search: if the name is taken, the base with the next number is looked at. -/
def next? (scope : Scope) (base : String) (a : Attempt) : Option Attempt :=
  if scope.contains a.name then some ⟨base ++ "_" ++ Number.natText (a.number + 1), a.number + 1⟩ else none

/-- The search from an attempt takes some turns, ends, and has found a name. -/
inductive Finds (scope : Scope) (base : String) : Attempt → Nat → String → Prop where
  | free {a : Attempt} (h : a.next? scope base = none) : Finds scope base a 0 a.name
  | turn {a b : Attempt} {turns : Nat} {name : String} (h : a.next? scope base = some b)
      (rest : Finds scope base b turns name) : Finds scope base a (turns + 1) name

/-- The search looks at the candidate with its number, and has passed over those before it. -/
structure Reached (scope : Scope) (base : String) (a : Attempt) : Prop where
  name : a.name = candidate base a.number
  taken : ∀ j < a.number, candidate base j ∈ scope.names

variable {a b : Attempt}

theorem next?_eq_none : a.next? scope base = none ↔ a.name ∉ scope.names := by
  simp [next?, contains_iff]

theorem next?_eq_some : a.next? scope base = some b ↔
    a.name ∈ scope.names ∧ b = ⟨candidate base (a.number + 1), a.number + 1⟩ := by
  unfold next?
  split_ifs with h
  · rw [Option.some.injEq, eq_comm, and_iff_right (contains_iff.mp h), candidate]
  · simp [← contains_iff, h]

theorem reached_first (scope : Scope) (base : String) : (first base).Reached scope base :=
  ⟨rfl, fun j hj => absurd hj (Nat.not_lt_zero j)⟩

/-- A turn reaches the next candidate. -/
theorem Reached.next (h : a.Reached scope base) (hnext : a.next? scope base = some b) :
    b.Reached scope base ∧ b.number = a.number + 1 := by
  obtain ⟨htaken, rfl⟩ := next?_eq_some.mp hnext
  refine ⟨⟨rfl, fun j hj => ?_⟩, rfl⟩
  obtain hlt | rfl := Nat.lt_succ_iff_lt_or_eq.mp hj
  · exact h.taken j hlt
  · exact h.name ▸ htaken

/-- The search ends: the number grows with each turn, and there are at least as many names in scope. -/
theorem Reached.exists_finds (h : a.Reached scope base) : ∃ turns name, Finds scope base a turns name := by
  -- The induction is on how many names are left to be passed over.
  induction hgap : scope.names.length - a.number using Nat.strongRecOn generalizing a with
  | ind gap ih =>
    cases hnext : a.next? scope base with
    | none => exact ⟨0, a.name, .free hnext⟩
    | some b =>
      obtain ⟨hb, hnumber⟩ := h.next hnext
      have hbound := le_length_of_taken hb.taken
      obtain ⟨turns, name, hfinds⟩ := ih (scope.names.length - b.number) (by omega) hb rfl
      exact ⟨turns + 1, name, .turn hnext hfinds⟩

/-- What the search finds is the first free candidate, and the turns have counted up to its number. -/
theorem Finds.firstFree {turns : Nat} {name : String} (hfinds : Finds scope base a turns name)
    (h : a.Reached scope base) :
    scope.FirstFree base (a.number + turns) ∧ name = candidate base (a.number + turns) := by
  induction hfinds with
  | @free a hnext =>
    have hfree := next?_eq_none.mp hnext
    rw [h.name] at hfree
    exact ⟨⟨hfree, h.taken⟩, h.name⟩
  | @turn a b turns name hnext _ ih =>
    obtain ⟨hb, hnumber⟩ := h.next hnext
    rw [show a.number + (turns + 1) = b.number + turns by omega]
    exact ih hb

end Attempt

/-- The search for a fresh name ends after as many turns as there are candidates before the first free one. -/
theorem finds_freshName (scope : Scope) (base : String) :
    ∃ turns, scope.FirstFree base turns ∧ Attempt.Finds scope base (.first base) turns (scope.freshName base) := by
  have hfirst := Attempt.reached_first scope base
  obtain ⟨turns, name, hfinds⟩ := hfirst.exists_finds
  obtain ⟨hfree, rfl⟩ := hfinds.firstFree hfirst
  rw [show (Attempt.first base).number + turns = turns from Nat.zero_add turns] at hfree hfinds
  exact ⟨turns, hfree, hfree.freshName_eq ▸ hfinds⟩

/-- A fresh name is a candidate that was not in scope. -/
theorem freshName_spec (scope : Scope) (base : String) :
    scope.freshName base ∉ scope.names ∧ ∃ k, scope.freshName base = candidate base k := by
  obtain ⟨k, hfree, -⟩ := scope.finds_freshName base
  exact ⟨hfree.freshName_eq ▸ hfree.free, k, hfree.freshName_eq⟩

-- A gap between the numbers that are taken is filled first.
example : (⟨["_while_iter", "_while_iter_1", "_while_iter_3"]⟩ : Scope).freshName "_while_iter" = "_while_iter_2" := by
  decide +kernel

end Scope

/-! ## Fresh names of a pass -/

namespace Pass

/-- Declaring a fresh name changes the scope by this name and nothing else. -/
theorem declareFresh_runs (base : String) (s : State) :
    (declareFresh base).Runs s (s.scope.freshName base)
      { s with scope := ⟨s.scope.names ++ [s.scope.freshName base]⟩ } := by
  have hnew : s.scope.contains (s.scope.freshName base) = false := by
    rw [← Bool.not_eq_true, Scope.contains_iff]
    exact (s.scope.freshName_spec base).1
  simp only [declareFresh, declare, runs_bind, runs_get, runs_modify, runs_pure]
  exact ⟨s, s, ⟨rfl, rfl⟩, (), _, rfl, rfl, by simp [Scope.declare, hnew]⟩

/-- What is asked of a scope: to hold a name from now on, or to give a fresh one. -/
inductive Request where
  | declare (name : String)
  | fresh (base : String)

/-- Serves a request, and returns the fresh name if one is asked for. -/
def Request.serve : Request → Pass (Option String)
  | .declare name => do
    Pass.declare name
    return none
  | .fresh base => do
    let name ← declareFresh base
    return some name

/-- Serves requests one after the other and returns the fresh names, in order. -/
def serveAll : List Request → Pass (List String)
  | [] => pure []
  | request :: rest => do
    let given ← request.serve
    let others ← serveAll rest
    return given.toList ++ others

/-- A request is always served. The name that is given was not in scope, and the scope grows by it or by the name that
is declared. -/
theorem Request.serve_runs (request : Request) (s : State) :
    ∃ given s', request.serve.Runs s given s' ∧ (∀ name ∈ given, name ∉ s.scope.names) ∧
      ∀ name, name ∈ s'.scope.names ↔ name ∈ s.scope.names ∨ name ∈ given ∨ request = .declare name := by
  cases request with
  | declare declared =>
    refine ⟨none, { s with scope := s.scope.declare declared }, ?_, by simp, fun name => ?_⟩
    · exact runs_bind.mpr ⟨(), _, runs_modify.mpr rfl, runs_pure.mpr ⟨rfl, rfl⟩⟩
    · simp [eq_comm]
  | fresh base =>
    refine ⟨some (s.scope.freshName base), { s with scope := ⟨s.scope.names ++ [s.scope.freshName base]⟩ }, ?_, ?_,
      fun name => ?_⟩
    · exact runs_bind.mpr ⟨_, _, declareFresh_runs base s, runs_pure.mpr ⟨rfl, rfl⟩⟩
    · rintro name ⟨⟩
      exact (s.scope.freshName_spec base).1
    · simp [eq_comm]

/-- Requests are always served. The fresh names are different from each other and from the names that were in scope,
and the scope grows by them and by the declared names. -/
theorem serveAll_runs (requests : List Request) (s : State) :
    ∃ names s', (serveAll requests).Runs s names s' ∧ names.Nodup ∧ (∀ name ∈ names, name ∉ s.scope.names) ∧
      ∀ name, name ∈ s'.scope.names ↔ name ∈ s.scope.names ∨ name ∈ names ∨ .declare name ∈ requests := by
  induction requests generalizing s with
  | nil => exact ⟨[], s, runs_pure.mpr ⟨rfl, rfl⟩, List.nodup_nil, by simp, by simp⟩
  | cons request rest ih =>
    obtain ⟨given, t, hserve, hgiven, ht⟩ := request.serve_runs s
    obtain ⟨others, s', hrest, hnodup, hothers, hs'⟩ := ih t
    refine ⟨given.toList ++ others, s', ?_, ?_, fun name hname => ?_, fun name => ?_⟩
    · exact runs_bind.mpr ⟨given, t, hserve, runs_bind.mpr ⟨others, s', hrest, runs_pure.mpr ⟨rfl, rfl⟩⟩⟩
    · -- What was given is in scope from then on, so that it is not given again.
      refine given.toList_nodup.append hnodup (List.disjoint_left.mpr fun name hname hin => ?_)
      exact hothers name hin ((ht name).mpr (.inr (.inl (Option.mem_toList.mp hname))))
    · obtain hname | hname := List.mem_append.mp hname
      · exact hgiven name (Option.mem_toList.mp hname)
      · exact fun hin => hothers name hname ((ht name).mpr (.inl hin))
    · rw [hs', ht, List.mem_append, Option.mem_toList, List.mem_cons, eq_comm (a := request)]
      tauto

/-- The search for a fresh name ends, within as many turns as there are names in scope. The name it finds is the base
if that is not in scope, and else the base with the least number from 1 on that makes it new. Declaring it puts this
name into scope and changes nothing else. So requests for fresh names, with any declarations between them, never get
a name twice, and none that was in scope. -/
theorem fresh_names_never_repeat (s : State) :
    (∀ base, ∃ name,
      (∃ turns ≤ s.scope.names.length, Scope.Attempt.Finds s.scope base (.first base) turns name) ∧
      (declareFresh base).Runs s name { s with scope := ⟨s.scope.names ++ [name]⟩ } ∧
      name ∉ s.scope.names ∧
      (base ∉ s.scope.names ∧ name = base ∨
        base ∈ s.scope.names ∧ ∃ k, IsLeast {k | 1 ≤ k ∧ base ++ "_" ++ Number.natText k ∉ s.scope.names} k ∧
          name = base ++ "_" ++ Number.natText k)) ∧
    ∀ requests, ∃ names s', (serveAll requests).Runs s names s' ∧ names.Nodup ∧
      (∀ name ∈ names, name ∉ s.scope.names) ∧
      ∀ name, name ∈ s'.scope.names ↔ name ∈ s.scope.names ∨ name ∈ names ∨ .declare name ∈ requests := by
  refine ⟨fun base => ?_, fun requests => serveAll_runs requests s⟩
  obtain ⟨turns, hfree, hfinds⟩ := s.scope.finds_freshName base
  refine ⟨s.scope.freshName base, ⟨turns, Scope.le_length_of_taken hfree.taken, hfinds⟩, declareFresh_runs base s, ?_⟩
  rw [hfree.freshName_eq]
  exact ⟨hfree.free, hfree.base_or_numbered⟩

end Pass

end Program

end FlowScript
