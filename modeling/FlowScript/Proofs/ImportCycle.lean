import FlowScript.Proofs.Pass
import FlowScript.Validation.Import
import Mathlib.Data.List.Chain
import Mathlib.Data.List.Rotate

/-!
# Cycles of imports

Following imports is a search of a graph: the documents are its nodes, and a document leads to the files
that it imports. The search keeps the files it is inside of on a stack and never opens a file that it is
through with. The main statement is that it finds a cycle exactly if there is one, provided that it is
nowhere stopped by the limit; and that in any case what it reports are cycles, none of them twice.
-/
namespace FlowScript.Validation

open File (Path Tree)
open Relation (ReflTransGen TransGen)

/-! ## The graph -/

/-- What imports are followed from: a document, the directory that its imports start from, and the file
that it was read from, if from any. -/
structure ImportGraph where
  tree : Tree
  settings : Settings
  /-- How deep documents are searched for imports. -/
  levels : Nat
  document : Value
  base : Path
  file : Option Path

namespace ImportGraph

variable (g : ImportGraph)

/-- The document at a node and the directory that its imports start from. Only the document that is
checked may come from no file; a file that cannot be loaded holds none. -/
def documentAt (node : Option Path) : Option (Value × Path) :=
  if node = g.file then some (g.document, g.base)
  else node.bind fun p =>
    match Source.load g.tree g.settings (.path p) with
    | .ok loaded => some (loaded.document, p.parent)
    | .error _ => none

/-- The document at a node imports a file that holds a document. -/
def Imports (node : Option Path) (target : Path) : Prop :=
  ∃ document base, g.documentAt node = some (document, base) ∧
    ∃ r ∈ importReferences g.levels document,
      r.resolve g.tree base = .ok target ∧ isDocumentFile g.tree target = true

def Edge (node next : Option Path) : Prop := ∃ target, next = some target ∧ g.Imports node target

/-- Some cycle can be reached from the document that is checked. -/
def HasCycle : Prop := ∃ node, ReflTransGen g.Edge g.file node ∧ TransGen g.Edge node node

/-- Files that import each other in turn, back to the first. -/
def IsClosedWalk (cycle : List Path) : Prop :=
  (∃ p between, cycle = p :: between ++ [p]) ∧ cycle.IsChain fun p q => g.Imports (some p) q

variable {g}

theorem Imports.edge {node : Option Path} {target : Path} (h : g.Imports node target) :
    g.Edge node (some target) := ⟨target, rfl, h⟩

theorem transGen_of_isChain {p q : Path} {between : List Path}
    (h : (p :: between ++ [q]).IsChain fun p q => g.Imports (some p) q) :
    TransGen g.Edge (some p) (some q) := by
  induction between generalizing p with
  | nil =>
    rw [List.singleton_append, List.isChain_pair] at h
    exact .single h.edge
  | cons next between ih =>
    simp only [List.cons_append, List.isChain_cons_cons] at h
    exact .head h.1.edge (ih h.2)

theorem documentAt_of_ne {p : Path} (h : g.file ≠ some p) :
    g.documentAt (some p) =
      match Source.load g.tree g.settings (.path p) with
      | .ok loaded => some (loaded.document, p.parent)
      | .error _ => none := by
  rw [documentAt, if_neg (Ne.symm h), Option.bind_some]

end ImportGraph

/-! ## The search -/

/-- What following references does when it ends without a fault. -/
inductive Follows (g : ImportGraph) :
    Path → List Path → Option String → List ImportReference → Trace → Trace → Prop where
  | done {base : Path} {stack : List Path} {location : Option String} {t : Trace} :
      Follows g base stack location [] t t
  | other {base target : Path} {stack : List Path} {location : Option String} {r : ImportReference}
      {rest : List ImportReference} {t t' : Trace} (hr : r.resolve g.tree base = .ok target)
      (hfile : isDocumentFile g.tree target = false) (hrest : Follows g base stack location rest t t') :
      Follows g base stack location (r :: rest) t t'
  | closing {base target : Path} {stack : List Path} {location : Option String} {r : ImportReference}
      {rest : List ImportReference} {t t' : Trace} (hr : r.resolve g.tree base = .ok target)
      (hfile : isDocumentFile g.tree target = true) (hstack : target ∈ stack)
      (hrest : Follows g base stack location rest
        (t.addCycle (cycleThrough stack target) (location.getD r.location)) t') :
      Follows g base stack location (r :: rest) t t'
  | known {base target : Path} {stack : List Path} {location : Option String} {r : ImportReference}
      {rest : List ImportReference} {t t' : Trace} (hr : r.resolve g.tree base = .ok target)
      (hchecked : target ∈ t.checked) (hrest : Follows g base stack location rest t t') :
      Follows g base stack location (r :: rest) t t'
  | stopped {base : Path} {stack : List Path} {location : Option String} {r : ImportReference}
      {rest : List ImportReference} {t t' : Trace}
      (hrest : Follows g base stack location rest
        (t.add (depthWarning g.settings r (location.getD r.location))) t') :
      Follows g base stack location (r :: rest) t t'
  | unread {base target : Path} {stack : List Path} {location : Option String} {r : ImportReference}
      {rest : List ImportReference} {t t' : Trace} {e : LoadError}
      (hr : r.resolve g.tree base = .ok target) (hfile : isDocumentFile g.tree target = true)
      (hstack : target ∉ stack) (hchecked : target ∉ t.checked)
      (hload : Source.load g.tree g.settings (.path target) = .error (.refused e))
      (hrest : Follows g base stack location rest
        (((t.openFile target).add (loadWarning e (location.getD r.location))).check target) t') :
      Follows g base stack location (r :: rest) t t'
  | entered {base target : Path} {stack : List Path} {location : Option String} {r : ImportReference}
      {rest : List ImportReference} {t u t' : Trace} {loaded : Loaded}
      (hr : r.resolve g.tree base = .ok target) (hfile : isDocumentFile g.tree target = true)
      (hstack : target ∉ stack) (hchecked : target ∉ t.checked)
      (hload : Source.load g.tree g.settings (.path target) = .ok loaded)
      (hinner : Follows g target.parent (stack ++ [target]) (some (location.getD r.location))
        (importReferences g.levels loaded.document) (t.openFile target) u)
      (hrest : Follows g base stack location rest (u.check target) t') :
      Follows g base stack location (r :: rest) t t'

section Search

variable {g : ImportGraph} {base : Path} {stack : List Path} {location : Option String}
  {refs : List ImportReference} {t t' : Trace}

theorem resolve_of_located {r : ImportReference} {tree : Tree} {target : Path}
    (h : r.located tree base = .ok target) : r.resolve tree base = .ok target := by
  unfold ImportReference.located at h
  obtain ⟨found, hfound, h⟩ := bind_eq_ok.mp h
  have htarget : found = target := by
    split_ifs at h
    · obtain ⟨_, -, h⟩ := bind_eq_ok.mp h
      exact Except.ok.inj h
    · exact Except.ok.inj h
  rw [hfound, htarget]

theorem readable_eq_ok {result : Except Source.Failure Loaded} {read : Except LoadError Loaded}
    (h : readable result = .ok read) :
    (∃ e, read = .error e ∧ result = .error (.refused e)) ∨
      ∃ loaded, read = .ok loaded ∧ result = .ok loaded := by
  unfold readable at h
  split at h
  · exact .inr ⟨_, (Except.ok.inj h).symm, rfl⟩
  · exact .inl ⟨_, (Except.ok.inj h).symm, rfl⟩
  · cases h

theorem follows_of_follow
    (h : follow g.tree g.settings g.levels base stack location refs t = .ok t') :
    Follows g base stack location refs t t' := by
  induction base, stack, location, refs, t using follow.induct g.tree g.settings g.levels
    generalizing t' with
  | case1 base stack location t =>
    rw [follow] at h
    obtain rfl := Except.ok.inj h
    exact .done
  | case2 base stack location t r rest ihcycle ihrest ihdeep ihunread ihinner ihafter =>
    rw [follow] at h
    obtain ⟨target, htarget, h⟩ := bind_eq_ok.mp h
    have hr := resolve_of_located htarget
    dsimp only at h
    split_ifs at h with hfile hstack hchecked
    · exact .closing hr hfile (List.contains_iff_mem.mp hstack) (ihcycle target h)
    · exact .known hr (List.contains_iff_mem.mp hchecked) (ihrest h)
    · have hstack' : target ∉ stack := fun hm => hstack (List.contains_iff_mem.mpr hm)
      have hchecked' : target ∉ t.checked := fun hm => hchecked (List.contains_iff_mem.mpr hm)
      obtain ⟨reached, -, h⟩ := bind_eq_ok.mp h
      split_ifs at h
      · obtain ⟨_, -, h⟩ := bind_eq_ok.mp h
        exact .stopped (ihdeep h)
      · obtain ⟨read, hread, h⟩ := bind_eq_ok.mp h
        obtain ⟨e, rfl, hload⟩ | ⟨loaded, rfl, hload⟩ := readable_eq_ok hread
        · exact .unread hr hfile hstack' hchecked' hload (ihunread target e h)
        · obtain ⟨u, hu, h⟩ := bind_eq_ok.mp h
          exact .entered hr hfile hstack' hchecked' hload (ihinner target hfile hstack loaded hu)
            (ihafter target u h)
    · exact .other hr (by simpa using hfile) (ihrest h)

end Search

/-! ## Where the search is -/

/-- The search is at references of the document on top of the stack. The stack leads there from the
document that is checked, one import after the other. -/
structure Frame (g : ImportGraph) (base : Path) (stack : List Path) (refs : List ImportReference) :
    Prop where
  start : ∀ p, g.file = some p → p ∈ stack
  reached : ∀ p ∈ stack, ReflTransGen g.Edge g.file (some p)
  chain : stack.IsChain fun p q => g.Imports (some p) q
  current : ∃ document, g.documentAt stack.getLast? = some (document, base) ∧
    refs ⊆ importReferences g.levels document

namespace Frame

variable {g : ImportGraph} {base target : Path} {stack : List Path} {r : ImportReference}
  {refs rest : List ImportReference}

theorem tail (h : Frame g base stack (r :: rest)) : Frame g base stack rest where
  start := h.start
  reached := h.reached
  chain := h.chain
  current := by
    obtain ⟨document, hdocument, hsub⟩ := h.current
    exact ⟨document, hdocument, fun x hx => hsub (List.mem_cons_of_mem _ hx)⟩

theorem imports (h : Frame g base stack refs) (hmem : r ∈ refs)
    (hr : r.resolve g.tree base = .ok target) (hfile : isDocumentFile g.tree target = true) :
    g.Imports stack.getLast? target := by
  obtain ⟨document, hdocument, hsub⟩ := h.current
  exact ⟨document, base, hdocument, r, hsub hmem, hr, hfile⟩

theorem reached_current (h : Frame g base stack refs) :
    ReflTransGen g.Edge g.file stack.getLast? := by
  cases hlast : stack.getLast? with
  | some p => exact h.reached p (List.mem_of_getLast? hlast)
  | none =>
    -- With an empty stack the search is at the document that is checked.
    obtain rfl := List.getLast?_eq_none_iff.mp hlast
    cases hfile : g.file with
    | none => exact .refl
    | some p => exact absurd (h.start p hfile) List.not_mem_nil

theorem file_ne (h : Frame g base stack refs) (hstack : target ∉ stack) : g.file ≠ some target :=
  fun hfile => hstack (h.start target hfile)

/-- A file that is entered goes on top of the stack. -/
theorem push {loaded : Loaded} (h : Frame g base stack refs) (himports : g.Imports stack.getLast? target)
    (hstack : target ∉ stack) (hload : Source.load g.tree g.settings (.path target) = .ok loaded) :
    Frame g target.parent (stack ++ [target]) (importReferences g.levels loaded.document) where
  start p hp := List.mem_append_left _ (h.start p hp)
  reached p hp := by
    rcases List.mem_append.mp hp with hp | hp
    · exact h.reached p hp
    · obtain rfl := List.mem_singleton.mp hp
      exact h.reached_current.tail himports.edge
  chain := by
    refine List.isChain_append.mpr ⟨h.chain, List.isChain_singleton _, fun p hp q hq => ?_⟩
    obtain rfl : target = q := by simpa using hq
    rwa [← Option.mem_def.mp hp]
  current := by
    refine ⟨loaded.document, ?_, List.Subset.refl _⟩
    rw [List.getLast?_concat, ImportGraph.documentAt_of_ne (h.file_ne hstack), hload]

/-- A reference back into the stack closes a walk. -/
theorem closedWalk (h : Frame g base stack refs) (himports : g.Imports stack.getLast? target)
    (hstack : target ∈ stack) : g.IsClosedWalk (cycleThrough stack target) := by
  obtain ⟨before, after, rfl, hbefore⟩ := List.eq_append_cons_of_mem hstack
  have hcycle : cycleThrough (before ++ target :: after) target = target :: after ++ [target] := by
    rw [cycleThrough, List.dropWhile_append_of_pos fun p hp => by
      simpa using fun he : p = target => hbefore (he ▸ hp), List.dropWhile_cons_of_neg (by simp)]
  rw [hcycle]
  refine ⟨⟨target, after, rfl⟩, List.isChain_append.mpr ⟨?_, List.isChain_singleton _, ?_⟩⟩
  · exact (List.isChain_append.mp h.chain).2.1
  · intro p hp q hq
    obtain rfl : target = q := by simpa using hq
    rw [List.getLast?_append_of_ne_nil _ (List.cons_ne_nil _ _), Option.mem_def.mp hp] at himports
    exact himports

end Frame

/-! ## What the search has found -/

/-- A finding reports a cycle. -/
def Reports (d : Diagnostic) (cycle : List Path) : Prop :=
  ∃ location, d = .error .importCycle (cycleMessage cycle) location

/-- The files that the search has come to, in the order in which it came to them. -/
def Trace.order (g : ImportGraph) (t : Trace) : List Path := g.file.toList ++ t.opened

/-- What holds of a trace while the search is inside the files of a stack: no file was opened twice,
and every cycle is reported once, from that of its files on which was opened first. -/
structure Explored (g : ImportGraph) (stack : List Path) (t : Trace) : Prop where
  fresh : (t.order g).Nodup
  stacked : stack.Sublist (t.order g)
  left : ∀ p ∈ t.order g, p ∈ stack ∨ p ∈ t.checked
  disjoint : ∀ p ∈ stack, p ∉ t.checked
  closed : ∀ cycle ∈ t.cycles, g.IsClosedWalk cycle
  reached : ∀ cycle ∈ t.cycles, ∀ p ∈ cycle, ReflTransGen g.Edge g.file (some p)
  ordered : ∀ cycle ∈ t.cycles, cycle.dropLast.Sublist (t.order g)
  distinct : t.cycles.Nodup
  reported : List.Forall₂ Reports (t.diagnostics.filter (·.kind == .importCycle)) t.cycles

namespace Explored

variable {g : ImportGraph} {base target : Path} {stack : List Path} {refs : List ImportReference}
  {t : Trace}

theorem initial : Explored g g.file.toList {} where
  fresh := by cases hfile : g.file <;> simp [Trace.order, hfile]
  stacked := by simp [Trace.order]
  left p hp := by simpa [Trace.order] using hp
  disjoint := by simp
  closed := by simp
  reached := by simp
  ordered := by simp
  distinct := List.nodup_nil
  reported := .nil

theorem add {d : Diagnostic} (h : Explored g stack t) (hd : d.kind ≠ .importCycle) :
    Explored g stack (t.add d) where
  fresh := h.fresh
  stacked := h.stacked
  left := h.left
  disjoint := h.disjoint
  closed := h.closed
  reached := h.reached
  ordered := h.ordered
  distinct := h.distinct
  reported := by
    have hfilter : [d].filter (·.kind == .importCycle) = [] := by simpa using hd
    simpa only [Trace.add, List.filter_append, hfilter, List.append_nil] using h.reported

theorem push (h : Explored g stack t) (hstack : target ∉ stack) (hchecked : target ∉ t.checked) :
    Explored g (stack ++ [target]) (t.openFile target) := by
  have horder : (t.openFile target).order g = t.order g ++ [target] := by
    simp [Trace.order, Trace.openFile]
  have hnew : target ∉ t.order g := fun hmem => (h.left target hmem).elim hstack hchecked
  refine ⟨?_, ?_, ?_, ?_, h.closed, h.reached, ?_, h.distinct, h.reported⟩
  · rw [horder]
    exact List.nodup_append.mpr ⟨h.fresh, List.nodup_singleton _, by grind⟩
  · rw [horder]
    exact h.stacked.append_right _
  · intro p hp
    rw [horder] at hp
    rcases List.mem_append.mp hp with hp | hp
    · exact (h.left p hp).imp_left fun hp => List.mem_append_left _ hp
    · exact .inl (List.mem_append_right _ hp)
  · intro p hp
    rcases List.mem_append.mp hp with hp | hp
    · exact h.disjoint p hp
    · obtain rfl := List.mem_singleton.mp hp
      exact hchecked
  · intro cycle hcycle
    rw [horder]
    exact (h.ordered cycle hcycle).trans (List.sublist_append_left _ _)

theorem pop (h : Explored g (stack ++ [target]) t) : Explored g stack (t.check target) := by
  have hstack : (stack ++ [target]).Nodup := h.fresh.sublist h.stacked
  refine ⟨h.fresh, ?_, ?_, ?_, h.closed, h.reached, h.ordered, h.distinct, h.reported⟩
  · exact (List.sublist_append_left _ _).trans h.stacked
  · intro p hp
    rcases h.left p hp with hp | hp
    · rcases List.mem_append.mp hp with hp | hp
      · exact .inl hp
      · exact .inr (List.mem_append_right _ hp)
    · exact .inr (List.mem_append_left _ hp)
  · intro p hp hchecked
    rcases List.mem_append.mp hchecked with hchecked | hchecked
    · exact h.disjoint p (List.mem_append_left _ hp) hchecked
    · exact (List.nodup_append.mp hstack).2.2 p hp p hchecked rfl

theorem addCycle (h : Explored g stack t) (hframe : Frame g base stack refs)
    (himports : g.Imports stack.getLast? target) (hstack : target ∈ stack) (location : String) :
    Explored g stack (t.addCycle (cycleThrough stack target) location) := by
  unfold Trace.addCycle
  split_ifs with hknown
  · exact h
  · have hnew : cycleThrough stack target ∉ t.cycles := fun hmem =>
      hknown (List.contains_iff_mem.mpr hmem)
    -- A fact about the cycles so far and the new one is a fact about all of them.
    have hall {P : List Path → Prop} (hold : ∀ cycle ∈ t.cycles, P cycle)
        (hlast : P (cycleThrough stack target)) :
        ∀ cycle ∈ t.cycles ++ [cycleThrough stack target], P cycle := fun cycle hmem =>
      (List.mem_append.mp hmem).elim (hold cycle) fun hmem => List.mem_singleton.mp hmem ▸ hlast
    refine ⟨h.fresh, h.stacked, h.left, h.disjoint, ?_, ?_, ?_, ?_, ?_⟩
    · exact hall h.closed (hframe.closedWalk himports hstack)
    · refine hall h.reached fun p hp => ?_
      rcases List.mem_append.mp hp with hp | hp
      · exact hframe.reached p (List.dropWhile_sublist _ |>.mem hp)
      · obtain rfl := List.mem_singleton.mp hp
        exact hframe.reached p hstack
    · refine hall h.ordered ?_
      rw [cycleThrough, List.dropLast_concat]
      exact (List.dropWhile_sublist _).trans h.stacked
    · exact List.nodup_append.mpr ⟨h.distinct, List.nodup_singleton _, by grind⟩
    · simp only [Trace.add, List.filter_append]
      exact List.rel_append h.reported (.cons ⟨location, rfl⟩ .nil)

end Explored

/-! ## Runs of the search -/

/-- A trace is only added to. -/
structure Trace.Grows (t t' : Trace) : Prop where
  checked : t.checked ⊆ t'.checked
  cycles : t.cycles ⊆ t'.cycles
  diagnostics : t.diagnostics ⊆ t'.diagnostics

namespace Trace.Grows

variable {t u t' : Trace}

protected theorem refl (t : Trace) : t.Grows t := ⟨fun _ h => h, fun _ h => h, fun _ h => h⟩

protected theorem trans (h : t.Grows u) (h' : u.Grows t') : t.Grows t' :=
  ⟨fun _ hx => h'.checked (h.checked hx), fun _ hx => h'.cycles (h.cycles hx),
    fun _ hx => h'.diagnostics (h.diagnostics hx)⟩

theorem add (t : Trace) (d : Diagnostic) : t.Grows (t.add d) :=
  ⟨fun _ h => h, fun _ h => h, fun _ h => List.mem_append_left _ h⟩

theorem check (t : Trace) (p : Path) : t.Grows (t.check p) :=
  ⟨fun _ h => List.mem_append_left _ h, fun _ h => h, fun _ h => h⟩

theorem openFile (t : Trace) (p : Path) : t.Grows (t.openFile p) :=
  ⟨fun _ h => h, fun _ h => h, fun _ h => h⟩

theorem addCycle (t : Trace) (cycle : List Path) (location : String) :
    t.Grows (t.addCycle cycle location) := by
  unfold Trace.addCycle
  split_ifs
  · exact .refl t
  · exact ⟨fun _ h => h, fun _ h => List.mem_append_left _ h, fun _ h => List.mem_append_left _ h⟩

end Trace.Grows

theorem Trace.mem_addCycle (t : Trace) (cycle : List Path) (location : String) :
    cycle ∈ (t.addCycle cycle location).cycles := by
  unfold Trace.addCycle
  split_ifs with hknown
  · exact List.contains_iff_mem.mp hknown
  · exact List.mem_append_right _ (List.mem_singleton_self _)

@[simp] theorem Trace.opened_addCycle (t : Trace) (cycle : List Path) (place : String) :
    (t.addCycle cycle place).opened = t.opened := by
  unfold Trace.addCycle
  split_ifs <;> rfl

@[simp] theorem Trace.checked_addCycle (t : Trace) (cycle : List Path) (place : String) :
    (t.addCycle cycle place).checked = t.checked := by
  unfold Trace.addCycle
  split_ifs <;> rfl

namespace Follows

variable {g : ImportGraph} {base : Path} {stack : List Path} {location : Option String}
  {refs : List ImportReference} {t t' : Trace}

theorem grows (h : Follows g base stack location refs t t') : t.Grows t' := by
  induction h with
  | done => exact .refl _
  | other _ _ _ ih => exact ih
  | closing _ _ _ _ ih => exact (Trace.Grows.addCycle _ _ _).trans ih
  | known _ _ _ ih => exact ih
  | stopped _ ih => exact (Trace.Grows.add _ _).trans ih
  | unread _ _ _ _ _ _ ih =>
    exact (((Trace.Grows.openFile _ _).trans (Trace.Grows.add _ _)).trans (Trace.Grows.check _ _)).trans ih
  | entered _ _ _ _ _ _ _ ihinner ihrest =>
    exact (((Trace.Grows.openFile _ _).trans ihinner).trans (Trace.Grows.check _ _)).trans ihrest

theorem explored (h : Follows g base stack location refs t t') (hframe : Frame g base stack refs)
    (ht : Explored g stack t) : Explored g stack t' := by
  induction h with
  | done => exact ht
  | other _ _ _ ih => exact ih hframe.tail ht
  | closing hr hfile hstack _ ih =>
    have himports := hframe.imports List.mem_cons_self hr hfile
    exact ih hframe.tail (ht.addCycle hframe himports hstack _)
  | known _ _ _ ih => exact ih hframe.tail ht
  | stopped _ ih => exact ih hframe.tail (ht.add (by simp [depthWarning, Diagnostic.warning]))
  | unread hr hfile hstack hchecked hload _ ih =>
    have hopened := ht.push hstack hchecked
    exact ih hframe.tail (hopened.add (by simp [loadWarning, Diagnostic.warning])).pop
  | entered hr hfile hstack hchecked hload _ _ ihinner ihrest =>
    have himports := hframe.imports List.mem_cons_self hr hfile
    have hinner := ihinner (hframe.push himports hstack hload) (ht.push hstack hchecked)
    exact ihrest hframe.tail hinner.pop

end Follows

/-! ## Files that lead to no cycle -/

/-- The search is through with files that import only such files and lie on no cycle. -/
structure Settled (g : ImportGraph) (checked : List Path) : Prop where
  imports : ∀ p ∈ checked, ∀ q, g.Imports (some p) q → q ∈ checked
  acyclic : ∀ p ∈ checked, ¬ TransGen g.Edge (some p) (some p)

namespace Settled

variable {g : ImportGraph} {checked : List Path} {target : Path}

theorem of_reaches (h : Settled g checked) {p : Path} {node : Option Path} (hp : p ∈ checked)
    (hreaches : ReflTransGen g.Edge (some p) node) : ∃ q ∈ checked, node = some q := by
  induction hreaches with
  | refl => exact ⟨p, hp, rfl⟩
  | tail _ hedge ih =>
    obtain ⟨q, hq, rfl⟩ := ih
    obtain ⟨next, rfl, himports⟩ := hedge
    exact ⟨next, h.imports q hq next himports, rfl⟩

/-- A node that imports only settled files is on no cycle unless it is settled itself. -/
theorem not_transGen (h : Settled g checked) {node : Option Path}
    (himports : ∀ q, g.Imports node q → q ∈ checked) (hnew : ∀ p ∈ checked, node ≠ some p) :
    ¬ TransGen g.Edge node node := by
  intro hcycle
  obtain ⟨next, ⟨q, rfl, hq⟩, hback⟩ := Relation.TransGen.head'_iff.mp hcycle
  obtain ⟨p, hp, he⟩ := h.of_reaches (himports q hq) hback
  exact hnew p hp he

theorem concat (h : Settled g checked) (himports : ∀ q, g.Imports (some target) q → q ∈ checked)
    (hnew : target ∉ checked) : Settled g (checked ++ [target]) where
  imports p hp q hq := by
    rcases List.mem_append.mp hp with hp | hp
    · exact List.mem_append_left _ (h.imports p hp q hq)
    · obtain rfl := List.mem_singleton.mp hp
      exact List.mem_append_left _ (himports q hq)
  acyclic p hp := by
    rcases List.mem_append.mp hp with hp | hp
    · exact h.acyclic p hp
    · obtain rfl := List.mem_singleton.mp hp
      exact h.not_transGen himports fun q hq he => hnew (Option.some.inj he ▸ hq)

end Settled

/-- The search was stopped nowhere. -/
def Trace.Unlimited (settings : Settings) (t : Trace) : Prop :=
  ∀ r location, depthWarning settings r location ∉ t.diagnostics

/-- Where nothing is found and nothing is left out, all imports are settled in the end. -/
theorem Follows.settled {g : ImportGraph} {base : Path} {stack : List Path} {location : Option String}
    {refs : List ImportReference} {t t' : Trace} (h : Follows g base stack location refs t t')
    (hframe : Frame g base stack refs) (ht : Explored g stack t) (hcycles : t'.cycles = [])
    (hlimit : t'.Unlimited g.settings) (hs : Settled g t.checked) :
    Settled g t'.checked ∧ ∀ r ∈ refs, ∀ target, r.resolve g.tree base = .ok target →
      isDocumentFile g.tree target = true → target ∈ t'.checked := by
  -- The file that the first reference means is settled, and so are the others by induction.
  have first {r : ImportReference} {rest : List ImportReference} {base target : Path} {t : Trace}
      (hr : r.resolve g.tree base = .ok target)
      (hfirst : isDocumentFile g.tree target = true → target ∈ t.checked)
      (hrest : ∀ r ∈ rest, ∀ target, r.resolve g.tree base = .ok target →
        isDocumentFile g.tree target = true → target ∈ t.checked) :
      ∀ x ∈ r :: rest, ∀ target, x.resolve g.tree base = .ok target →
        isDocumentFile g.tree target = true → target ∈ t.checked := by
    intro x hx other hother hfile
    rcases List.mem_cons.mp hx with rfl | hx
    · obtain rfl := Except.ok.inj (hr.symm.trans hother)
      exact hfirst hfile
    · exact hrest x hx other hother hfile
  induction h with
  | done => exact ⟨hs, by simp⟩
  | other hr hfile _ ih =>
    obtain ⟨hs', hrest⟩ := ih hframe.tail ht hcycles hlimit hs
    exact ⟨hs', first hr (fun h => by simp [hfile] at h) hrest⟩
  | closing _ _ _ hrest _ =>
    have hfound := hrest.grows.cycles (Trace.mem_addCycle _ _ _)
    simp [hcycles] at hfound
  | known hr hchecked hrest ih =>
    obtain ⟨hs', hothers⟩ := ih hframe.tail ht hcycles hlimit hs
    exact ⟨hs', first hr (fun _ => hrest.grows.checked hchecked) hothers⟩
  | stopped hrest _ =>
    exact absurd (hrest.grows.diagnostics (List.mem_append_right _ (List.mem_singleton_self _)))
      (hlimit _ _)
  | @unread base target stack location r rest t t' e hr hfile hstack hchecked hload hrest ih =>
    -- A file without a document imports nothing.
    have hnothing (q : Path) : ¬ g.Imports (some target) q := by
      rintro ⟨document, base, hdocument, -⟩
      rw [ImportGraph.documentAt_of_ne (hframe.file_ne hstack), hload] at hdocument
      cases hdocument
    have hopened := (ht.push hstack hchecked).add (d := loadWarning e (location.getD r.location))
      (by simp [loadWarning, Diagnostic.warning])
    obtain ⟨hs', hothers⟩ := ih hframe.tail hopened.pop hcycles hlimit
      (hs.concat (fun q hq => absurd hq (hnothing q)) hchecked)
    have htarget := hrest.grows.checked (List.mem_append_right _ (List.mem_singleton_self _))
    exact ⟨hs', first hr (fun _ => htarget) hothers⟩
  | @entered base target stack location r rest t u t' loaded hr hfile hstack hchecked hload hinner hrest
      ihinner ihrest =>
    have himports := hframe.imports List.mem_cons_self hr hfile
    have hbelow := hframe.push himports hstack hload
    have hpushed := ht.push hstack hchecked
    have hexplored := hinner.explored hbelow hpushed
    have hafter := (Trace.Grows.check u target).trans hrest.grows
    -- What is found inside the file stays found.
    have hcycles' : u.cycles = [] := List.eq_nil_of_subset_nil (hcycles ▸ hafter.cycles)
    obtain ⟨hsu, hrefs⟩ := ihinner hbelow hpushed hcycles'
      (fun r location hmem => hlimit r location (hafter.diagnostics hmem)) hs
    have hown (q : Path) (hq : g.Imports (some target) q) : q ∈ u.checked := by
      obtain ⟨document, directory, hdocument, r', hr', hq, hqfile⟩ := hq
      rw [ImportGraph.documentAt_of_ne (hframe.file_ne hstack), hload] at hdocument
      obtain ⟨rfl, rfl⟩ := Prod.mk.inj (Option.some.inj hdocument)
      exact hrefs r' hr' q hq hqfile
    have hnew : target ∉ u.checked :=
      hexplored.disjoint target (List.mem_append_right _ (List.mem_singleton_self _))
    obtain ⟨hs', hothers⟩ := ihrest hframe.tail hexplored.pop hcycles hlimit (hsu.concat hown hnew)
    have htarget := hrest.grows.checked (List.mem_append_right _ (List.mem_singleton_self _))
    exact ⟨hs', first hr (fun _ => htarget) hothers⟩

/-! ## The whole search -/

section Whole

variable {g : ImportGraph} {t : Trace}

theorem ImportGraph.frame (g : ImportGraph) :
    Frame g g.base g.file.toList (importReferences g.levels g.document) where
  start p hp := by simp [hp]
  reached p hp := by
    have hfile : g.file = some p := Option.mem_toList.mp hp
    rw [hfile]
  chain := by cases hfile : g.file <;> simp
  current := by
    refine ⟨g.document, ?_, List.Subset.refl _⟩
    have hlast : g.file.toList.getLast? = g.file := by cases g.file <;> rfl
    rw [hlast, documentAt, if_pos rfl]

/-- Two selections from a list without repetitions are the same if they have the same elements. -/
theorem eq_of_sublist_of_mem_iff {order a b : List Path} (horder : order.Nodup) (ha : a.Sublist order)
    (hb : b.Sublist order) (he : ∀ p, p ∈ a ↔ p ∈ b) : a = b := by
  have hfilter {c : List Path} (hc : c.Sublist order) : c = order.filter (· ∈ c) := by
    have hsub : c.Sublist (order.filter (· ∈ c)) := by
      have := hc.filter (· ∈ c)
      rwa [List.filter_eq_self.mpr (by simp)] at this
    have hperm : c.Perm (order.filter (· ∈ c)) :=
      (List.perm_ext_iff_of_nodup (horder.sublist hc) (horder.filter _)).mpr fun p => by
        simpa using fun hp => hc.mem hp
    exact hsub.eq_of_length hperm.length_eq
  rw [hfilter ha, hfilter hb]
  simp only [he]

/-- No two of the cycles are the same up to where they start. -/
theorem Explored.not_rotated {stack : List Path} (h : Explored g stack t) :
    t.cycles.Pairwise fun c c' => ¬ c.dropLast.IsRotated c'.dropLast := by
  refine h.distinct.imp_of_mem fun {c c'} hc hc' hne hrotated => hne ?_
  have hinner : c.dropLast = c'.dropLast :=
    eq_of_sublist_of_mem_iff h.fresh (h.ordered c hc) (h.ordered c' hc') fun p => hrotated.mem_iff
  obtain ⟨⟨p, between, rfl⟩, -⟩ := h.closed c hc
  obtain ⟨⟨q, between', rfl⟩, -⟩ := h.closed c' hc'
  rw [List.dropLast_concat, List.dropLast_concat] at hinner
  obtain ⟨rfl, rfl⟩ := List.cons.inj hinner
  rfl

theorem Explored.hasCycle {stack : List Path} (h : Explored g stack t) (hcycles : t.cycles ≠ []) :
    g.HasCycle := by
  obtain ⟨cycle, hmem⟩ := List.exists_mem_of_ne_nil _ hcycles
  obtain ⟨⟨p, between, rfl⟩, hchain⟩ := h.closed cycle hmem
  exact ⟨some p, h.reached _ hmem p (by simp), ImportGraph.transGen_of_isChain hchain⟩

theorem Follows.cycles_ne_nil_iff
    (h : Follows g g.base g.file.toList none (importReferences g.levels g.document) {} t)
    (hlimit : t.Unlimited g.settings) : t.cycles ≠ [] ↔ g.HasCycle := by
  have hexplored := h.explored g.frame .initial
  refine ⟨hexplored.hasCycle, ?_⟩
  rintro ⟨node, hreaches, hcycle⟩ hnone
  obtain ⟨hs, hrefs⟩ := h.settled g.frame .initial hnone hlimit ⟨by simp, by simp⟩
  have hroot (q : Path) (hq : g.Imports g.file q) : q ∈ t.checked := by
    obtain ⟨document, base, hdocument, r, hr, hq, hfile⟩ := hq
    rw [ImportGraph.documentAt, if_pos rfl] at hdocument
    obtain ⟨rfl, rfl⟩ := Prod.mk.inj (Option.some.inj hdocument)
    exact hrefs r hr q hq hfile
  -- The cycle passes through the document that is checked, or only through settled files.
  rcases hreaches.cases_head with rfl | ⟨next, ⟨q, rfl, hq⟩, hrest⟩
  · refine hs.not_transGen hroot (fun p hp hfile => ?_) hcycle
    exact hexplored.disjoint p (Option.mem_toList.mpr hfile) hp
  · obtain ⟨p, hp, rfl⟩ := hs.of_reaches (hroot q hq) hrest
    exact hs.acyclic p hp hcycle

end Whole

theorem checkTarget_kind {tree : Tree} {base root : Path} {r : ImportReference} {ds : List Diagnostic}
    (h : checkTarget tree base root r = .ok ds) : ds.filter (·.kind == .importCycle) = [] := by
  unfold checkTarget at h
  obtain ⟨target, -, h⟩ := bind_eq_ok.mp h
  obtain ⟨found, -, h⟩ := bind_eq_ok.mp h
  split_ifs at h
  all_goals
    obtain rfl := Except.ok.inj h
    simp [Diagnostic.warning]

/-- What is said of the targets of a document is no report of a cycle. -/
theorem filter_targets_eq_nil {tree : Tree} {base root : Path} {refs : List ImportReference}
    {targets : List (List Diagnostic)} (h : refs.mapM (checkTarget tree base root) = .ok targets) :
    targets.flatten.filter (·.kind == .importCycle) = [] := by
  rw [List.filter_flatten, List.flatten_eq_nil_iff]
  intro found hfound
  obtain ⟨own, hown, rfl⟩ := List.mem_map.mp hfound
  obtain ⟨r, -, hr⟩ := exists_of_result_mem h hown
  exact checkTarget_kind hr

/-- The graph that a check of imports is about. -/
def ImportGraph.ofCheck (tree : Tree) (settings : Settings) (base : Path) (file : Option Path)
    (document : Value) : Except Fault ImportGraph := do
  let directory ← tree.resolve base
  let levels ← settings.walkLevels
  let start ← file.mapM tree.resolve
  return ⟨tree, settings, levels, document, directory, start⟩

theorem mapM_resolve_toList {tree : Tree} {file : Option Path} {stack : List Path}
    (h : file.toList.mapM tree.resolve = .ok stack) :
    ∃ start, file.mapM tree.resolve = .ok start ∧ stack = start.toList := by
  cases file with
  | none => exact ⟨none, rfl, (Except.ok.inj h).symm⟩
  | some p =>
    cases forall₂_of_mapM h with
    | @cons _ q _ _ hq hrest =>
      cases hrest
      exact ⟨some q, by rw [Option.mapM_some, hq]; rfl, rfl⟩

theorem ofCheck_eq {tree : Tree} {settings : Settings} {base directory : Path} {file start : Option Path}
    {levels : Nat} (hbase : tree.resolve base = .ok directory) (hlevels : settings.walkLevels = .ok levels)
    (hstart : file.mapM tree.resolve = .ok start) (document : Value) :
    ImportGraph.ofCheck tree settings base file document =
      .ok ⟨tree, settings, levels, document, directory, start⟩ := by
  rw [ImportGraph.ofCheck, hbase, hlevels, hstart]
  rfl

theorem ofCheck_eq_ok {tree : Tree} {settings : Settings} {base : Path} {file : Option Path}
    {document : Value} {g : ImportGraph} (h : ImportGraph.ofCheck tree settings base file document = .ok g) :
    ∃ directory levels start, tree.resolve base = .ok directory ∧ settings.walkLevels = .ok levels ∧
      file.mapM tree.resolve = .ok start ∧ g = ⟨tree, settings, levels, document, directory, start⟩ := by
  obtain ⟨directory, hbase, h⟩ := bind_eq_ok.mp h
  obtain ⟨levels, hlevels, h⟩ := bind_eq_ok.mp h
  obtain ⟨start, hstart, h⟩ := bind_eq_ok.mp h
  exact ⟨directory, levels, start, hbase, hlevels, hstart, (Except.ok.inj h).symm⟩

/-- Once the targets of the document were looked at, the search decides how the check ends. -/
theorem checkImports_eq {tree : Tree} {settings : Settings} {base within : Path} {root file : Option Path}
    {document : Value} {g : ImportGraph} {targets : List (List Diagnostic)}
    (hg : ImportGraph.ofCheck tree settings base file document = .ok g)
    (hwithin : tree.resolve (root.getD g.base) = .ok within)
    (htargets : (importReferences g.levels g.document).mapM (checkTarget g.tree g.base within) = .ok targets) :
    checkImports tree settings base root file document =
      (follow g.tree g.settings g.levels g.base g.file.toList none
        (importReferences g.levels g.document) {}).map fun t => targets.flatten ++ t.diagnostics := by
  obtain ⟨directory, levels, start, hbase, hlevels, hstart, rfl⟩ := ofCheck_eq_ok hg
  have hstack : file.toList.mapM tree.resolve = .ok start.toList := by
    cases file with
    | none =>
      obtain rfl := Except.ok.inj hstart
      rfl
    | some p =>
      obtain ⟨q, hq, hstart⟩ := bind_eq_ok.mp hstart
      obtain rfl := Except.ok.inj hstart
      rw [Option.toList_some, List.mapM_cons, hq]
      rfl
  have hok {α β : Type} (a : α) (f : α → Except Fault β) : (Except.ok a >>= f) = f a := rfl
  rw [checkImports, hbase, hok, hwithin, hok, hlevels, hok]
  dsimp only at htargets ⊢
  rw [htargets, hok, hstack, hok]
  cases follow tree settings levels directory start.toList none (importReferences levels document) {} <;> rfl

/-- The check ends if the targets of the document can be looked at and the search ends. -/
theorem checkImports_eq_ok_iff {tree : Tree} {settings : Settings} {base : Path} {root file : Option Path}
    {document : Value} {ds : List Diagnostic} :
    checkImports tree settings base root file document = .ok ds ↔
      ∃ g within targets t, ImportGraph.ofCheck tree settings base file document = .ok g ∧
        tree.resolve (root.getD g.base) = .ok within ∧
        (importReferences g.levels g.document).mapM (checkTarget g.tree g.base within) = .ok targets ∧
        follow g.tree g.settings g.levels g.base g.file.toList none
          (importReferences g.levels g.document) {} = .ok t ∧
        ds = targets.flatten ++ t.diagnostics := by
  constructor
  · intro h
    unfold checkImports at h
    obtain ⟨directory, hbase, h⟩ := bind_eq_ok.mp h
    obtain ⟨within, hwithin, h⟩ := bind_eq_ok.mp h
    obtain ⟨levels, hlevels, h⟩ := bind_eq_ok.mp h
    obtain ⟨targets, htargets, h⟩ := bind_eq_ok.mp h
    obtain ⟨stack, hstack, h⟩ := bind_eq_ok.mp h
    obtain ⟨t, ht, h⟩ := bind_eq_ok.mp h
    obtain rfl := Except.ok.inj h
    obtain ⟨start, hstart, rfl⟩ := mapM_resolve_toList hstack
    exact ⟨_, within, targets, t, ofCheck_eq hbase hlevels hstart document, hwithin, htargets, ht, rfl⟩
  · rintro ⟨g, within, targets, t, hg, hwithin, htargets, ht, rfl⟩
    rw [checkImports_eq hg hwithin htargets, ht]
    rfl

theorem checkImports_eq_ok {tree : Tree} {settings : Settings} {base : Path} {root file : Option Path}
    {document : Value} {ds : List Diagnostic}
    (h : checkImports tree settings base root file document = .ok ds) :
    ∃ g t, ImportGraph.ofCheck tree settings base file document = .ok g ∧ g.settings = settings ∧
      Follows g g.base g.file.toList none (importReferences g.levels g.document) {} t ∧
      t.diagnostics ⊆ ds ∧
      ds.filter (·.kind == .importCycle) = t.diagnostics.filter (·.kind == .importCycle) := by
  obtain ⟨g, within, targets, t, hg, -, htargets, ht, rfl⟩ := checkImports_eq_ok_iff.mp h
  refine ⟨g, t, hg, ?_, follows_of_follow ht, fun d hd => List.mem_append_right _ hd, ?_⟩
  · obtain ⟨_, _, _, -, -, -, rfl⟩ := ofCheck_eq_ok hg
    rfl
  · rw [List.filter_append, filter_targets_eq_nil htargets, List.nil_append]

/-- Unless the limit stops it somewhere, checking the imports of a document reports a cycle exactly if
one can be reached from it. Whatever it reports is a closed walk of imports, and no cycle is reported
twice, also not from another of its files on. -/
theorem importCycle_reported_iff {tree : Tree} {settings : Settings} {base : Path}
    {root file : Option Path} {document : Value} {ds : List Diagnostic}
    (h : checkImports tree settings base root file document = .ok ds) :
    ∃ g, ImportGraph.ofCheck tree settings base file document = .ok g ∧
      ((∀ r location, depthWarning settings r location ∉ ds) →
        ((∃ d ∈ ds, d.isError = true ∧ d.kind = .importCycle) ↔ g.HasCycle)) ∧
      ∃ cycles, List.Forall₂ Reports (ds.filter (·.kind == .importCycle)) cycles ∧
        (∀ cycle ∈ cycles, g.IsClosedWalk cycle) ∧
        cycles.Pairwise fun c c' => ¬ c.dropLast.IsRotated c'.dropLast := by
  obtain ⟨g, t, hg, hsettings, hfollows, hsub, hfilter⟩ := checkImports_eq_ok h
  have hexplored := hfollows.explored g.frame .initial
  have hreported := hexplored.reported
  rw [← hfilter] at hreported
  refine ⟨g, hg, fun hlimit => ?_, t.cycles, hreported, hexplored.closed, hexplored.not_rotated⟩
  rw [← hfollows.cycles_ne_nil_iff fun r location hmem => hlimit r location
    (hsettings ▸ hsub hmem)]
  constructor
  · rintro ⟨d, hd, -, hkind⟩ hnone
    rw [hnone, List.forall₂_nil_right_iff, List.filter_eq_nil_iff] at hreported
    exact hreported d hd (by simp [hkind])
  · intro hsome
    obtain ⟨cycle, others, hcycles⟩ := List.exists_cons_of_ne_nil hsome
    rw [hcycles] at hreported
    cases hds : ds.filter (·.kind == .importCycle) with
    | nil => simp [hds] at hreported
    | cons d rest =>
      rw [hds] at hreported
      obtain ⟨⟨location, rfl⟩, -⟩ := List.forall₂_cons.mp hreported
      have hmem := List.mem_of_mem_filter (hds ▸ List.mem_cons_self)
      exact ⟨_, hmem, rfl, rfl⟩

/-- A file at the top of a tree. -/
def fileNamed (name : String) : Path := ⟨true, [name], false⟩

/-- The second file imports the first, which is being checked. -/
def twoFiles : Tree where
  here := ⟨true, [], false⟩
  files := [(fileNamed "a.yaml", []), (fileNamed "b.yaml", "import: [a.yaml]".toUTF8.toList)]

def importingSecond : Value := .map [(.text "import", .list [.text "b.yaml"])]

/-- The one finding about the two files. -/
def twoFilesFinding : Diagnostic :=
  .error .importCycle "Import cycle detected: a.yaml -> b.yaml -> a.yaml." "/import[0]"

theorem twoFiles_follow : ∃ t, t.diagnostics = [twoFilesFinding] ∧
    follow twoFiles {} 50 twoFiles.here [fileNamed "a.yaml"] none [⟨"b.yaml", "/import[0]"⟩] {} = .ok t := by
  have hload : (Source.load twoFiles {} (.path (fileNamed "b.yaml"))).toOption.map
      (fun loaded => importReferences 50 loaded.document) = some [⟨"a.yaml", "/import[0]"⟩] := by
    decide +kernel
  cases hread : Source.load twoFiles {} (.path (fileNamed "b.yaml")) with
  | error e => simp [hread, Except.toOption] at hload
  | ok loaded =>
    have hrefs : importReferences 50 loaded.document = [⟨"a.yaml", "/import[0]"⟩] := by
      rw [hread] at hload
      exact Option.some.inj hload
    have hfirst : ImportReference.located ⟨"a.yaml", "/import[0]"⟩ twoFiles (fileNamed "b.yaml").parent =
      .ok (fileNamed "a.yaml") := rfl
    have hsecond : ImportReference.located ⟨"b.yaml", "/import[0]"⟩ twoFiles twoFiles.here =
      .ok (fileNamed "b.yaml") := rfl
    have hok {α β : Type} (a : α) (f : α → Except Fault β) : (Except.ok a >>= f) = f a := rfl
    have hlimit : Limit.isReachedBy (Settings.maxImportDepth {})
      (.int ([fileNamed "a.yaml"].length : Nat)) = .ok false := rfl
    -- Inside the second file the search meets the first one on the stack.
    have hinner (t : Trace) : follow twoFiles {} 50 (fileNamed "b.yaml").parent
        ([fileNamed "a.yaml"] ++ [fileNamed "b.yaml"]) (some "/import[0]") [⟨"a.yaml", "/import[0]"⟩] t =
          .ok (t.addCycle [fileNamed "a.yaml", fileNamed "b.yaml", fileNamed "a.yaml"] "/import[0]") := by
      rw [follow, hfirst, hok, dif_pos (by decide +kernel), dif_pos (by decide), follow]
      rfl
    refine ⟨((({} : Trace).openFile (fileNamed "b.yaml")).addCycle
      [fileNamed "a.yaml", fileNamed "b.yaml", fileNamed "a.yaml"] "/import[0]").check (fileNamed "b.yaml"),
      by decide +kernel, ?_⟩
    rw [follow, hsecond, hok, dif_pos (by decide +kernel), dif_neg (by decide), if_neg (by decide)]
    rw [hlimit, hok, if_neg (by decide), hread, readable, hok]
    dsimp only
    rw [hrefs, Option.getD_none, hinner, hok, follow]

theorem twoFiles_importCycle_reported :
    ∃ g, ImportGraph.ofCheck twoFiles {} twoFiles.here (some (fileNamed "a.yaml")) importingSecond = .ok g ∧
      checkImports twoFiles {} twoFiles.here none (some (fileNamed "a.yaml")) importingSecond =
        .ok [twoFilesFinding] ∧ g.HasCycle := by
  have hcheck : checkImports twoFiles {} twoFiles.here none (some (fileNamed "a.yaml")) importingSecond =
      .ok [twoFilesFinding] := by
    obtain ⟨t, hfound, hfollow⟩ := twoFiles_follow
    have hrefs : importReferences 50 importingSecond = [⟨"b.yaml", "/import[0]"⟩] := by decide +kernel
    have hbase : twoFiles.resolve twoFiles.here = .ok twoFiles.here := rfl
    have hlevels : Settings.walkLevels {} = .ok 50 := rfl
    have htargets : [(⟨"b.yaml", "/import[0]"⟩ : ImportReference)].mapM
        (checkTarget twoFiles twoFiles.here twoFiles.here) = .ok [[]] := rfl
    have hstack : (some (fileNamed "a.yaml")).toList.mapM twoFiles.resolve = .ok [fileNamed "a.yaml"] := rfl
    refine bind_eq_ok.mpr ⟨_, hbase, bind_eq_ok.mpr ⟨_, hbase, bind_eq_ok.mpr ⟨_, hlevels, ?_⟩⟩⟩
    dsimp only
    rw [hrefs]
    refine bind_eq_ok.mpr ⟨_, htargets, bind_eq_ok.mpr ⟨_, hstack, bind_eq_ok.mpr ⟨t, hfollow, ?_⟩⟩⟩
    rw [hfound]
    rfl
  obtain ⟨g, hg, hiff, -⟩ := importCycle_reported_iff hcheck
  refine ⟨g, hg, hcheck, (hiff fun r location => ?_).mp ⟨_, List.mem_singleton_self _, rfl, rfl⟩⟩
  simp [twoFilesFinding, depthWarning, Diagnostic.warning, Diagnostic.error]

end FlowScript.Validation
