import FlowScript.Proofs.Hoisting
import FlowScript.Proofs.Names

/-!
# Counters of conditional loops

A loop on a condition is bounded only if nothing but the loop itself assigns to its counter. Where the
author names no counter, the pass takes the first numbered name that is not in scope. The scope is put
back after every branch of a parallel group, so that a name may be taken again, but never inside of the
loop that it counts for. The main statement is that such a counter is bound nowhere before its loop and
nowhere in the body, and that the loops of one function have different counters.
-/
namespace FlowScript.Program

open Construct Pass

/-! ## Numbered names -/

/-- Whether a name is one of those that counters take. -/
def isCounterName (name : String) : Bool := counterBase.toList.isPrefixOf name.toList

/-- Asks of names that no counter takes them. -/
def NoCounter (_ : Role) (name : String) : Prop := isCounterName name = false

/-- A loop on a condition, with the line that starts its counter. -/
def countedLoop (counter bound condition : String) (body : Block) : Block :=
  [.line (.start counter), .block (.bounded counter bound condition) (body ++ [.line (.increment counter)])]

mutual

/-- The numbered counters that an item starts in the function it stands in. -/
def Item.counters : Item → List String
  | .line (.start counter) => if isCounterName counter then [counter] else []
  | .line _ => []
  | .comment _ => []
  | .blank => []
  | .block (.branch _) _ => []
  | .block _ body => blockCounters body

def blockCounters : List Item → List String
  | [] => []
  | item :: items => item.counters ++ blockCounters items

end

mutual

/-- In an item that follows bindings of the known names, a numbered counter is not known where it is
started, and the body of its loop names it nowhere. -/
def Item.Counts (known : List String) : Item → Prop
  | .line (.start counter) => isCounterName counter = true → counter ∉ known
  | .line _ => True
  | .comment _ => True
  | .blank => True
  | .block header body =>
    (∀ counter bound condition inner, header = .bounded counter bound condition →
      body = inner ++ [.line (.increment counter)] → isCounterName counter = true →
      ∀ x ∈ blockNames inner, x.2 ≠ counter) ∧
    blockCounts (known ++ header.targets) body

def blockCounts (known : List String) : List Item → Prop
  | [] => True
  | item :: items => item.Counts known ∧ blockCounts (known ++ item.bound) items

end

section Blocks

variable {known enclosing : List String} {a b part : Block}

theorem blockNames_append : blockNames (a ++ b) = blockNames a ++ blockNames b := by
  induction a with
  | nil => rfl
  | cons item items ih => rw [List.cons_append, blockNames, blockNames, ih, List.append_assoc]

@[simp] theorem blockCounters_nil : blockCounters [] = [] := rfl

@[simp] theorem blockCounters_cons (item : Item) (items : Block) :
    blockCounters (item :: items) = item.counters ++ blockCounters items := rfl

@[simp] theorem blockCounts_nil : blockCounts known [] := trivial

@[simp] theorem blockCounts_cons (item : Item) (items : Block) : blockCounts known (item :: items) ↔
    item.Counts known ∧ blockCounts (known ++ item.bound) items := Iff.rfl

theorem blockCounts_append : blockCounts known (a ++ b) ↔
    blockCounts known a ∧ blockCounts (known ++ blockBound a) b := by
  induction a generalizing known with
  | nil => simp
  | cons item items ih =>
    rw [List.cons_append, blockCounts_cons, blockCounts_cons, ih, blockBound_cons, and_assoc,
      List.append_assoc]

/-- A header that opens no function leaves what its body binds to the function around it. -/
theorem bound_block {header : Header} (hh : ∀ function, header ≠ .branch function) (b : Block) :
    (Item.block header b).bound = header.targets ++ blockBound b := by
  cases header with
  | branch function => exact absurd rfl (hh function)
  | _ => rw [Item.bound]; simp

mutual

theorem Item.counters_subset_bound : (item : Item) → item.counters ⊆ item.bound
  | .line statement => by
    cases statement with
    | start counter =>
      rw [Item.counters, Item.bound, Statement.targets]
      split_ifs <;> simp
    | _ => simp [Item.counters]
  | .comment _ => by simp [Item.counters]
  | .blank => by simp [Item.counters]
  | .block header body => by
    have hbody := counters_subset_bound body
    cases header with
    | branch function => simp [Item.counters]
    | _ =>
      rw [Item.counters, bound_block]
      · exact fun n hn => List.mem_append_right _ (hbody hn)
      all_goals simp

/-- Starting a counter binds it. -/
theorem counters_subset_bound : (b : Block) → blockCounters b ⊆ blockBound b
  | [] => List.Subset.refl _
  | item :: items => by
    have hitem := Item.counters_subset_bound item
    have hitems := counters_subset_bound items
    rw [blockCounters_cons, blockBound_cons]
    exact List.append_subset.mpr ⟨fun n hn => List.mem_append_left _ (hitem hn),
      fun n hn => List.mem_append_right _ (hitems hn)⟩

end

mutual

theorem Item.Counts.distinct : {known : List String} → (item : Item) → item.Counts known →
    item.counters.Nodup ∧ ∀ counter ∈ item.counters, counter ∉ known
  | known, .line statement, h => by
    cases statement with
    | start counter =>
      rw [Item.Counts] at h
      rw [Item.counters]
      split_ifs with hcounter
      · simpa using h hcounter
      · simp
    | _ => simp [Item.counters]
  | _, .comment _, _ => by simp [Item.counters]
  | _, .blank, _ => by simp [Item.counters]
  | known, .block header body, h => by
    rw [Item.Counts] at h
    have hbody := counters_distinct body h.2
    have hknown : ∀ counter ∈ blockCounters body, counter ∉ known := fun counter hc hmem =>
      hbody.2 counter hc (List.mem_append_left _ hmem)
    cases header with
    | branch function => simp [Item.counters]
    | _ =>
      rw [Item.counters]
      · exact ⟨hbody.1, hknown⟩
      all_goals simp

/-- The loops of one function have different counters, and all of them are new. -/
theorem counters_distinct : {known : List String} → (b : Block) → blockCounts known b →
    (blockCounters b).Nodup ∧ ∀ counter ∈ blockCounters b, counter ∉ known
  | _, [], _ => by simp
  | known, item :: items, h => by
    rw [blockCounts_cons] at h
    obtain ⟨hown, hfresh⟩ := Item.Counts.distinct item h.1
    obtain ⟨hrest, hlater⟩ := counters_distinct items h.2
    have hbound := Item.counters_subset_bound item
    rw [blockCounters_cons]
    constructor
    · refine hown.append hrest fun counter hc hmem => ?_
      exact hlater counter hmem (List.mem_append_right _ (hbound hc))
    · intro counter hc hmem
      rcases List.mem_append.mp hc with hc | hc
      · exact hfresh counter hc hmem
      · exact hlater counter hc (List.mem_append_left _ hmem)

end

end Blocks

/-! ## What a pass keeps -/

/-- From one state to the next a block is left whose names stay in scope. No name that is in scope before
it becomes a counter in it, and the counters of its loops are private. -/
structure Counted (s : State) (b : Block) (s' : State) : Prop where
  grows : s.scope.names ⊆ s'.scope.names
  bound : blockBound b ⊆ s'.scope.names
  fresh : ∀ x ∈ blockNames b, isCounterName x.2 = true → x.2 ∉ s.scope.names
  counts : ∀ known, known ⊆ s.scope.names → blockCounts known b

/-- A pass that leaves such a block. -/
def Counting (p : Pass Block) : Prop :=
  ∀ ⦃s : State⦄ ⦃b : Block⦄ ⦃s' : State⦄, p.Runs s b s' → Counted s b s'

section Counted

variable {names : List String} {s t s' : State} {a b : Block}

/-- Lines that name no counter have none to start. -/
theorem blockCounts_of_named {known : List String} (hp : Plain b) (hn : Named NoCounter b) :
    blockCounts known b := by
  induction b generalizing known with
  | nil => simp
  | cons item items ih =>
    rw [named_cons] at hn
    rw [blockCounts_cons]
    refine ⟨?_, ih (fun header body hmem => hp header body (List.mem_cons_of_mem _ hmem)) hn.2⟩
    cases item with
    | block header body => exact absurd List.mem_cons_self (hp header body)
    | line statement =>
      cases statement with
      | start counter =>
        have hfalse : isCounterName counter = false := Item.named_start.mp hn.1
        simp [Item.Counts, hfalse]
      | _ => simp [Item.Counts]
    | _ => simp [Item.Counts]

theorem names_subset_of_binds (h : s.Binds names s') : s.scope.names ⊆ s'.scope.names :=
  fun n hn => (h.scope n).mpr (.inl hn)

namespace Counted

theorem of_plain (hp : Plain b) (hn : Named NoCounter b) (hgrows : s.scope.names ⊆ s'.scope.names)
    (hbound : blockBound b ⊆ s'.scope.names) : Counted s b s' where
  grows := hgrows
  bound := hbound
  fresh x hx hcounter := by
    have hfalse : isCounterName x.2 = false := hn x hx
    rw [hfalse] at hcounter
    cases hcounter
  counts known _ := blockCounts_of_named hp hn

theorem of_binds (hp : Plain b) (hn : Named NoCounter b) (hb : s.Binds names s')
    (hbound : blockBound b ⊆ names) : Counted s b s' :=
  of_plain hp hn (names_subset_of_binds hb) fun n hmem => (hb.scope n).mpr (.inr (hbound hmem))

protected theorem append (h : Counted s a t) (h' : Counted t b s') : Counted s (a ++ b) s' where
  grows n hn := h'.grows (h.grows hn)
  bound := by
    rw [blockBound_append]
    exact List.append_subset.mpr ⟨fun n hn => h'.grows (h.bound hn), h'.bound⟩
  fresh x hx hcounter := by
    rw [blockNames_append] at hx
    rcases List.mem_append.mp hx with hx | hx
    · exact h.fresh x hx hcounter
    · exact fun hmem => h'.fresh x hx hcounter (h.grows hmem)
  counts known hknown := by
    rw [blockCounts_append]
    exact ⟨h.counts known hknown, h'.counts _ (List.append_subset.mpr
      ⟨fun n hn => h.grows (hknown hn), h.bound⟩)⟩

protected theorem filled (h : Counted s b s') : Counted s (filled b) s' := by
  cases b with
  | nil =>
    refine ⟨h.grows, by simp [Pass.filled, Item.bound, Statement.targets], ?_, fun known _ =>
      blockCounts_of_named (by simp [Plain, Pass.filled]) (by simp [Pass.filled])⟩
    simp [Pass.filled, blockNames, Item.names, Statement.names, Statement.targets]
  | cons item items => exact h

/-- A header of a block that is neither a function nor a loop on a condition binds its names for the
body and what follows. -/
protected theorem block {header : Header} (hh : ∀ function, header ≠ .branch function)
    (hw : ∀ counter bound condition, header ≠ .bounded counter bound condition)
    (hn : ∀ name ∈ header.targets, NoCounter .own name) (hb : s.Binds names t)
    (ht : header.targets ⊆ names) (hbody : Counted t b s') : Counted s [.block header b] s' := by
  have htargets : header.targets ⊆ t.scope.names := fun n hmem => (hb.scope n).mpr (.inr (ht hmem))
  have hgrows := names_subset_of_binds hb
  refine ⟨fun n hmem => hbody.grows (hgrows hmem), ?_, ?_, ?_⟩
  · rw [blockBound_cons, bound_block hh, blockBound_nil, List.append_nil]
    exact List.append_subset.mpr ⟨fun n hmem => hbody.grows (htargets hmem), hbody.bound⟩
  · intro x hx hcounter
    simp only [blockNames, Item.names, Header.names, List.append_nil, List.mem_append, List.mem_map] at hx
    rcases hx with ⟨n, hmem, rfl⟩ | hx
    · have hfalse : isCounterName n = false := hn n hmem
      rw [hfalse] at hcounter
      cases hcounter
    · exact fun hmem => hbody.fresh x hx hcounter (hgrows hmem)
  · intro known hknown
    rw [blockCounts_cons, Item.Counts]
    refine ⟨⟨fun counter bound condition inner he => absurd he (hw counter bound condition), ?_⟩, trivial⟩
    exact hbody.counts _ (List.append_subset.mpr ⟨fun n hmem => hgrows (hknown hmem), htargets⟩)

/-- A loop on a condition takes a counter that is new, if it is one of the numbered ones. Nothing in its
body takes it again, since it is in scope there. -/
protected theorem loop {counter bound condition : String}
    (hnew : isCounterName counter = true → counter ∉ s.scope.names) (hb : s.Binds [counter] t)
    (hbody : Counted t b s') : Counted s (countedLoop counter bound condition b) s' := by
  have hgrows := names_subset_of_binds hb
  have hcounter : counter ∈ t.scope.names := (hb.scope counter).mpr (.inr (List.mem_singleton.mpr rfl))
  refine ⟨fun n hmem => hbody.grows (hgrows hmem), ?_, ?_, ?_⟩
  · intro n hmem
    simp only [countedLoop, blockBound_cons, blockBound_nil, Item.bound, Statement.targets, Header.targets,
      blockBound_append, List.append_nil, List.nil_append, List.mem_append,
      List.mem_singleton] at hmem
    rcases hmem with rfl | hmem | rfl
    · exact hbody.grows hcounter
    · exact hbody.bound hmem
    · exact hbody.grows hcounter
  · intro x hx hname
    simp only [countedLoop, blockNames, blockNames_append, Item.names, Header.names, Header.targets,
      Statement.names, Statement.targets, List.map_cons, List.map_nil, List.append_nil, List.nil_append,
      List.mem_append, List.mem_singleton] at hx
    rcases hx with rfl | hx | rfl
    · exact hnew hname
    · exact fun hmem => hbody.fresh x hx hname (hgrows hmem)
    · exact hnew hname
  · intro known hknown
    rw [countedLoop, blockCounts_cons, blockCounts_cons, Item.Counts, Item.Counts]
    refine ⟨fun hname hmem => hnew hname (hknown hmem), ⟨?_, ?_⟩, trivial⟩
    · rintro _ _ _ inner ⟨rfl, rfl, rfl⟩ hinner hname x hx rfl
      obtain rfl := List.append_cancel_right hinner
      exact hbody.fresh x hx hname hcounter
    · rw [blockCounts_append]
      refine ⟨hbody.counts _ ?_, by simp [Item.Counts]⟩
      intro n hmem
      simp only [Item.bound, Statement.targets, Header.targets, List.append_nil, List.mem_append,
        List.mem_singleton] at hmem
      rcases hmem with hmem | rfl
      · exact hgrows (hknown hmem)
      · exact hcounter

/-- What the body of a function binds is put back after it. -/
protected theorem function (h : Counted s b t) (name : String) :
    Counted s [.block (.branch name) b] { t with scope := s.scope } where
  grows := List.Subset.refl _
  bound := by simp [Item.bound]
  fresh x hx := by
    simp only [blockNames, Item.names, Header.names, Header.targets, List.map_nil, List.append_nil,
      List.nil_append] at hx
    exact h.fresh x hx
  counts known hknown := by
    rw [blockCounts_cons, Item.Counts, Header.targets, List.append_nil]
    · exact ⟨⟨by simp, h.counts known hknown⟩, trivial⟩
    all_goals simp

end Counted

theorem Counting.each {α : Type} {f : α → Pass Block} {entries : List α}
    (hf : ∀ entry ∈ entries, Counting (f entry)) : Counting (Pass.each f entries) := by
  induction entries with
  | nil =>
    intro s b s' h
    obtain ⟨rfl, rfl⟩ := runs_each_nil.mp h
    exact Counted.of_binds (by simp [Plain]) (by simp) (.refl _) (by simp)
  | cons entry rest ih =>
    intro s b s' h
    obtain ⟨first, t, others, hfirst, hrest, rfl⟩ := runs_each_cons.mp h
    exact (hf entry List.mem_cons_self hfirst).append
      (ih (fun other hmem => hf other (List.mem_cons_of_mem _ hmem)) hrest)

end Counted

/-! ## Steps and flows -/

section Steps

variable {ctx : Context} {step : Step} {nested : Flow → Pass Block} {s s' : State} {b : Block}

end Steps

end FlowScript.Program
