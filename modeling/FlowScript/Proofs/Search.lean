import FlowScript.Proofs.ImportCycle

/-!
# The search for imports, step by step

Following imports is a recursion. Here it is taken apart into single steps: the search is inside of
documents, and a step reads a file, looks at one reference or leaves a document. The recursion and the
steps agree, also where a fault stops the search. So what is asked of every call is asked of every
state: no file is read twice and none that was on the stack before, and the stacks have no repetitions
and stay within the limit.
-/
namespace FlowScript.Validation

open File (Path Tree)
open Relation (ReflTransGen TransGen)

/-! ## Steps -/

/-- A document that the search is inside of, with those of its references that are left. -/
structure Level where
  /-- The file that was entered; the first document was not. -/
  file : Option Path
  base : Path
  stack : List Path
  location : Option String
  refs : List ImportReference

/-- Where the search is. -/
structure Search where
  /-- The documents it is inside of, innermost first. -/
  inside : List Level
  /-- The file that is to be read, and where problems with it are reported. -/
  reading : Option (Path × String)
  trace : Trace

namespace Search

/-- The search before its first step. -/
def start (base : Path) (stack : List Path) (refs : List ImportReference) : Search :=
  ⟨[⟨none, base, stack, none, refs⟩], none, {}⟩

section Steps

variable (tree : Tree) (settings : Settings) (levels : Nat)

/-- Reads a file that the innermost document imports. -/
def read (level : Level) (outer : List Level) (target : Path) (place : String) (t : Trace) :
    Except Fault Search := do
  match ← readable (Source.load tree settings (.path target)) with
  | .error e => return ⟨level :: outer, none, (t.add (loadWarning e place)).check target⟩
  | .ok loaded =>
    return ⟨⟨some target, target.parent, level.stack ++ [target], some place,
      importReferences levels loaded.document⟩ :: level :: outer, none, t⟩

/-- Looks at a reference of the innermost document, of which `level` is left. -/
def look (level : Level) (outer : List Level) (r : ImportReference) (t : Trace) : Except Fault Search := do
  let target ← r.located tree level.base
  let place := level.location.getD r.location
  if isDocumentFile tree target then
    if level.stack.contains target then
      return ⟨level :: outer, none, t.addCycle (cycleThrough level.stack target) place⟩
    else if t.checked.contains target then
      return ⟨level :: outer, none, t⟩
    else if ← settings.maxImportDepth.isReachedBy (.int level.stack.length) then
      settings.maxImportDepth.given.checkWritable
      return ⟨level :: outer, none, t.add (depthWarning settings r place)⟩
    else
      return ⟨level :: outer, some (target, place), t.openFile target⟩
  else return ⟨level :: outer, none, t⟩

/-- The next step, unless the search is over. -/
def next : Search → Option (Except Fault Search)
  | ⟨[], _, _⟩ => none
  | ⟨level :: outer, some (target, place), t⟩ => some (read tree settings levels level outer target place t)
  | ⟨level :: outer, none, t⟩ =>
    match level.refs with
    | [] => some (.ok ⟨outer, none, level.file.elim t t.check⟩)
    | r :: rest => some (look tree settings { level with refs := rest } outer r t)

/-- One step of the search that ends without a fault. -/
def Steps (s s' : Search) : Prop := s.next tree settings levels = some (.ok s')

/-- The search comes from one state to another. -/
def Reaches : Search → Search → Prop := ReflTransGen (Steps tree settings levels)

/-- From a state the search comes to a final one with its findings, or to a fault. -/
inductive Yields (final : Trace → Search) (s : Search) : Except Fault Trace → Prop where
  | done {t : Trace} (h : Reaches tree settings levels s (final t)) : Yields final s (.ok t)
  | fault {fault : Fault} {last : Search} (h : Reaches tree settings levels s last)
      (hlast : last.next tree settings levels = some (.error fault)) : Yields final s (.error fault)

/-- What a step does, by the kinds of steps. -/
inductive Moves : Search → Search → Prop where
  | refused {level : Level} {outer : List Level} {target : Path} {place : String} {t : Trace} {e : LoadError}
      (hload : Source.load tree settings (.path target) = .error (.refused e)) :
      Moves ⟨level :: outer, some (target, place), t⟩
        ⟨level :: outer, none, (t.add (loadWarning e place)).check target⟩
  | entered {level : Level} {outer : List Level} {target : Path} {place : String} {t : Trace} {loaded : Loaded}
      (hload : Source.load tree settings (.path target) = .ok loaded) :
      Moves ⟨level :: outer, some (target, place), t⟩
        ⟨⟨some target, target.parent, level.stack ++ [target], some place,
          importReferences levels loaded.document⟩ :: level :: outer, none, t⟩
  | left {level : Level} {outer : List Level} {t : Trace} (hrefs : level.refs = []) :
      Moves ⟨level :: outer, none, t⟩ ⟨outer, none, level.file.elim t t.check⟩
  | other {level : Level} {outer : List Level} {r : ImportReference} {rest : List ImportReference}
      {t : Trace} {target : Path} (hrefs : level.refs = r :: rest)
      (hr : r.located tree level.base = .ok target) (hfile : isDocumentFile tree target = false) :
      Moves ⟨level :: outer, none, t⟩ ⟨{ level with refs := rest } :: outer, none, t⟩
  | closing {level : Level} {outer : List Level} {r : ImportReference} {rest : List ImportReference}
      {t : Trace} {target : Path} (hrefs : level.refs = r :: rest)
      (hr : r.located tree level.base = .ok target) (hfile : isDocumentFile tree target = true)
      (hstack : target ∈ level.stack) :
      Moves ⟨level :: outer, none, t⟩ ⟨{ level with refs := rest } :: outer, none,
        t.addCycle (cycleThrough level.stack target) (level.location.getD r.location)⟩
  | known {level : Level} {outer : List Level} {r : ImportReference} {rest : List ImportReference}
      {t : Trace} {target : Path} (hrefs : level.refs = r :: rest)
      (hr : r.located tree level.base = .ok target) (hfile : isDocumentFile tree target = true)
      (hstack : target ∉ level.stack) (hchecked : target ∈ t.checked) :
      Moves ⟨level :: outer, none, t⟩ ⟨{ level with refs := rest } :: outer, none, t⟩
  | stopped {level : Level} {outer : List Level} {r : ImportReference} {rest : List ImportReference}
      {t : Trace} {target : Path} (hrefs : level.refs = r :: rest)
      (hr : r.located tree level.base = .ok target) (hfile : isDocumentFile tree target = true)
      (hstack : target ∉ level.stack) (hchecked : target ∉ t.checked)
      (hlimit : settings.maxImportDepth.isReachedBy (.int level.stack.length) = .ok true) :
      Moves ⟨level :: outer, none, t⟩ ⟨{ level with refs := rest } :: outer, none,
        t.add (depthWarning settings r (level.location.getD r.location))⟩
  | opening {level : Level} {outer : List Level} {r : ImportReference} {rest : List ImportReference}
      {t : Trace} {target : Path} (hrefs : level.refs = r :: rest)
      (hr : r.located tree level.base = .ok target) (hfile : isDocumentFile tree target = true)
      (hstack : target ∉ level.stack) (hchecked : target ∉ t.checked)
      (hlimit : settings.maxImportDepth.isReachedBy (.int level.stack.length) = .ok false) :
      Moves ⟨level :: outer, none, t⟩ ⟨{ level with refs := rest } :: outer,
        some (target, level.location.getD r.location), t.openFile target⟩

end Steps

section Runs

variable {tree : Tree} {settings : Settings} {levels : Nat} {s s' : Search}

/-- The kinds of steps are all there are. -/
theorem moves_of_steps (h : Steps tree settings levels s s') : Moves tree settings levels s s' := by
  obtain ⟨inside, reading, t⟩ := s
  cases inside with
  | nil => cases h
  | cons level outer =>
    cases reading with
    | some file =>
      obtain ⟨target, place⟩ := file
      obtain ⟨loaded, hread, h⟩ := bind_eq_ok.mp (Option.some.inj h)
      obtain ⟨e, rfl, hload⟩ | ⟨loaded, rfl, hload⟩ := readable_eq_ok hread
      · obtain rfl := Except.ok.inj h
        exact .refused hload
      · obtain rfl := Except.ok.inj h
        exact .entered hload
    | none =>
      cases hrefs : level.refs with
      | nil =>
        simp only [Steps, next, hrefs, Option.some.injEq, Except.ok.injEq] at h
        subst h
        exact .left hrefs
      | cons r rest =>
        simp only [Steps, next, hrefs, Option.some.injEq] at h
        obtain ⟨target, hr, h⟩ := bind_eq_ok.mp h
        dsimp only at h
        split_ifs at h with hfile hstack hchecked
        · obtain rfl := Except.ok.inj h
          exact .closing hrefs hr hfile (List.contains_iff_mem.mp hstack)
        · obtain rfl := Except.ok.inj h
          exact .known hrefs hr hfile (by simpa using hstack) (List.contains_iff_mem.mp hchecked)
        · obtain ⟨reached, hlimit, h⟩ := bind_eq_ok.mp h
          cases reached with
          | true =>
            obtain ⟨_, -, h⟩ := bind_eq_ok.mp h
            obtain rfl := Except.ok.inj h
            exact .stopped hrefs hr hfile (by simpa using hstack) (by simpa using hchecked) hlimit
          | false =>
            obtain rfl := Except.ok.inj h
            exact .opening hrefs hr hfile (by simpa using hstack) (by simpa using hchecked) hlimit
        · obtain rfl := Except.ok.inj h
          exact .other hrefs hr (by simpa using hfile)

theorem Yields.after {final : Trace → Search} {result : Except Fault Trace}
    (hreaches : Reaches tree settings levels s s') (h : Yields tree settings levels final s' result) :
    Yields tree settings levels final s result := by
  cases h with
  | done h => exact .done (hreaches.trans h)
  | fault h hlast => exact .fault (hreaches.trans h) hlast

/-- The recursion and the steps agree. -/
theorem yields_follow (file : Option Path) (base : Path) (stack : List Path) (location : Option String)
    (refs : List ImportReference) (t : Trace) (outer : List Level) :
    Yields tree settings levels (fun t' => ⟨⟨file, base, stack, location, []⟩ :: outer, none, t'⟩)
      ⟨⟨file, base, stack, location, refs⟩ :: outer, none, t⟩
      (follow tree settings levels base stack location refs t) := by
  induction base, stack, location, refs, t using follow.induct tree settings levels
    generalizing file outer with
  | case1 base stack location t =>
    rw [follow]
    exact .done .refl
  | case2 base stack location t r rest ihcycle ihrest ihdeep ihunread ihinner ihafter =>
    have hok {α β : Type} (a : α) (f : α → Except Fault β) : (Except.ok a >>= f) = f a := rfl
    have herror {α β : Type} (fault : Fault) (f : α → Except Fault β) :
        (Except.error fault >>= f) = .error fault := rfl
    rw [follow]
    cases hr : r.located tree base with
    | error fault =>
      refine .fault .refl (congrArg some ?_)
      rw [look, hr, herror]
    | ok target =>
      rw [hok]
      by_cases hfile : isDocumentFile tree target = true
      swap
      · rw [dif_neg hfile]
        refine .after (.single (congrArg some ?_)) (ihrest file outer)
        rw [look, hr, hok, if_neg hfile]
        rfl
      rw [dif_pos hfile]
      by_cases hstack : stack.contains target = true
      · rw [dif_pos hstack]
        refine .after (.single (congrArg some ?_)) (ihcycle target file outer)
        rw [look, hr, hok, if_pos hfile, if_pos hstack]
        rfl
      rw [dif_neg hstack]
      by_cases hchecked : t.checked.contains target = true
      · rw [if_pos hchecked]
        refine .after (.single (congrArg some ?_)) (ihrest file outer)
        rw [look, hr, hok, if_pos hfile, if_neg hstack, if_pos hchecked]
        rfl
      rw [if_neg hchecked]
      cases hlimit : settings.maxImportDepth.isReachedBy (.int stack.length) with
      | error fault =>
        refine .fault .refl (congrArg some ?_)
        rw [look, hr, hok, if_pos hfile, if_neg hstack, if_neg hchecked, hlimit, herror]
      | ok reached =>
        rw [hok]
        cases reached with
        | true =>
          rw [if_pos rfl]
          cases hshown : settings.maxImportDepth.given.checkWritable with
          | error fault =>
            refine .fault .refl (congrArg some ?_)
            rw [look, hr, hok, if_pos hfile, if_neg hstack, if_neg hchecked, hlimit, hok, if_pos rfl, hshown, herror]
          | ok =>
            refine .after (.single (congrArg some ?_)) (ihdeep file outer)
            rw [look, hr, hok, if_pos hfile, if_neg hstack, if_neg hchecked, hlimit, hok, if_pos rfl, hshown]
            rfl
        | false =>
          rw [if_neg (by simp)]
          have hopening : look tree settings ⟨file, base, stack, location, rest⟩ outer r t =
              .ok ⟨⟨file, base, stack, location, rest⟩ :: outer, some (target, location.getD r.location),
                t.openFile target⟩ := by
            rw [look, hr, hok, if_pos hfile, if_neg hstack, if_neg hchecked, hlimit]
            rfl
          refine .after (.single (congrArg some hopening)) ?_
          cases hread : readable (Source.load tree settings (.path target)) with
          | error fault =>
            refine .fault .refl (congrArg some ?_)
            rw [read, hread, herror]
          | ok result =>
            rw [hok]
            cases result with
            | error e =>
              refine .after (.single (congrArg some ?_)) (ihunread target e file outer)
              rw [read, hread]
              rfl
            | ok loaded =>
              have hentering : read tree settings levels ⟨file, base, stack, location, rest⟩ outer target
                  (location.getD r.location) (t.openFile target) = .ok ⟨⟨some target, target.parent,
                    stack ++ [target], some (location.getD r.location),
                    importReferences levels loaded.document⟩ :: ⟨file, base, stack, location, rest⟩ :: outer,
                    none, t.openFile target⟩ := by
                rw [read, hread]
                rfl
              refine .after (.single (congrArg some hentering)) ?_
              dsimp only
              -- The steps inside of the file, the step that leaves it, and those for the other references.
              have hinner := ihinner target hfile hstack loaded (some target)
                (⟨file, base, stack, location, rest⟩ :: outer)
              cases hfollow : follow tree settings levels target.parent (stack ++ [target])
                  (some (location.getD r.location)) (importReferences levels loaded.document)
                  (t.openFile target) with
              | error fault =>
                rw [herror]
                cases hfollow ▸ hinner with
                | fault h hlast => exact .fault h hlast
              | ok u =>
                rw [hok]
                cases hfollow ▸ hinner with
                | done h => exact .after (h.tail rfl) (ihafter target u file outer)

theorem yields_start (base : Path) (stack : List Path) (refs : List ImportReference) :
    Yields tree settings levels (fun t => ⟨[], none, t⟩) (start base stack refs)
      (follow tree settings levels base stack none refs {}) := by
  have h := @yields_follow tree settings levels none base stack none refs {} []
  cases hfollow : follow tree settings levels base stack none refs {} with
  | error fault =>
    cases hfollow ▸ h with
    | fault h hlast => exact .fault h hlast
  | ok t =>
    cases hfollow ▸ h with
    | done h => exact .done (h.tail rfl)

theorem reaches_of_follow {base : Path} {stack : List Path} {refs : List ImportReference} {t : Trace}
    (h : follow tree settings levels base stack none refs {} = .ok t) :
    Reaches tree settings levels (start base stack refs) ⟨[], none, t⟩ := by
  have hyields := @yields_start tree settings levels base stack refs
  rw [h] at hyields
  cases hyields with
  | done hreaches => exact hreaches

theorem Steps.eq {a b : Search} (ha : Steps tree settings levels s a) (hb : Steps tree settings levels s b) :
    a = b :=
  Except.ok.inj (Option.some.inj (ha.symm.trans hb))

/-- A search that comes to an end cannot go on for ever, since every state has one next step at most. -/
theorem acc_of_reaches {last : Search} (h : Reaches tree settings levels s last)
    (hlast : ∀ s', ¬ Steps tree settings levels last s') :
    Acc (fun s' s => Steps tree settings levels s s') s := by
  induction h using ReflTransGen.head_induction_on with
  | refl => exact ⟨_, fun s' hs' => absurd hs' (hlast s')⟩
  | head hstep _ ih => exact ⟨_, fun s' hs' => hs'.eq hstep ▸ ih⟩

theorem Yields.acc {result : Except Fault Trace}
    (h : Yields tree settings levels (fun t => ⟨[], none, t⟩) s result) :
    Acc (fun s' s => Steps tree settings levels s s') s := by
  cases h with
  | done h => exact acc_of_reaches h fun s' hs' => by cases hs'
  | fault h hlast =>
    refine acc_of_reaches h fun s' hs' => ?_
    cases hlast.symm.trans hs'

/-- The search comes to one end only. -/
theorem eq_of_reaches {a b : Search} (ha : Reaches tree settings levels s a)
    (hb : Reaches tree settings levels s b) (hlasta : ∀ s', ¬ Steps tree settings levels a s')
    (hlastb : ∀ s', ¬ Steps tree settings levels b s') : a = b := by
  have hunique : Relator.RightUnique (Steps tree settings levels) := fun _ _ _ => Steps.eq
  rcases ReflTransGen.total_of_right_unique hunique ha hb with h | h
  · rcases h.cases_head with he | ⟨s', hs', -⟩
    · exact he
    · exact absurd hs' (hlasta s')
  · rcases h.cases_head with he | ⟨s', hs', -⟩
    · exact he.symm
    · exact absurd hs' (hlastb s')

theorem follow_eq_of_reaches {base : Path} {stack : List Path} {refs : List ImportReference} {last : Search}
    (h : Reaches tree settings levels (start base stack refs) last) (hlast : last.inside = []) :
    follow tree settings levels base stack none refs {} = .ok last.trace := by
  obtain ⟨inside, reading, t⟩ := last
  obtain rfl : inside = [] := hlast
  have hyields := @yields_start tree settings levels base stack refs
  generalize follow tree settings levels base stack none refs {} = result at hyields
  have hend (s' : Search) : ¬ Steps tree settings levels ⟨[], reading, t⟩ s' := nofun
  cases hyields with
  | @done u hdone => rw [Search.mk.inj (eq_of_reaches h hdone hend nofun) |>.2.2]
  | @fault fault other hother hfault =>
    have hstuck (s' : Search) : ¬ Steps tree settings levels other s' := fun hs' => by
      cases hfault.symm.trans hs'
    rw [← eq_of_reaches h hother hend hstuck] at hfault
    cases hfault

/-- Files are opened one after the other, and a file that is read was opened last. -/
theorem Reaches.exists_opened (h : Reaches tree settings levels s s') (hs : s.reading = none) :
    ∃ more, s'.trace.opened = s.trace.opened ++ more ∧
      ∀ target place, s'.reading = some (target, place) → target ∈ more := by
  induction h with
  | refl => exact ⟨[], (List.append_nil _).symm, by simp [hs]⟩
  | tail _ hstep ih =>
    obtain ⟨more, hmore, -⟩ := ih
    cases moves_of_steps hstep with
    | refused => exact ⟨more, hmore, nofun⟩
    | entered => exact ⟨more, hmore, nofun⟩
    | @left level outer t hrefs =>
      refine ⟨more, ?_, nofun⟩
      cases level.file with
      | none => exact hmore
      | some file => exact hmore
    | other => exact ⟨more, hmore, nofun⟩
    | closing => exact ⟨more, (Trace.opened_addCycle _ _ _).trans hmore, nofun⟩
    | known => exact ⟨more, hmore, nofun⟩
    | stopped => exact ⟨more, hmore, nofun⟩
    | @opening level outer r rest t target hrefs hr hfile hstack hchecked hlimit =>
      refine ⟨more ++ [target], ?_, ?_⟩
      · rw [← List.append_assoc, ← hmore]
        rfl
      · rintro _ _ ⟨⟩
        exact List.mem_append_right _ (List.mem_singleton_self _)

/-- Reading a file leaves the files that were opened as they are. -/
theorem Steps.of_reading {target : Path} {place : String} (h : Steps tree settings levels s s')
    (hs : s.reading = some (target, place)) : s'.reading = none ∧ s'.trace.opened = s.trace.opened := by
  cases moves_of_steps h with
  | refused => exact ⟨rfl, rfl⟩
  | entered => exact ⟨rfl, rfl⟩
  | left => cases hs
  | other => cases hs
  | closing => cases hs
  | known => cases hs
  | stopped => cases hs
  | opening => cases hs

/-- As many steps as told, or fewer if the search is over. -/
def advance (tree : Tree) (settings : Settings) (levels : Nat) : Nat → Search → Except Fault Search
  | 0, s => .ok s
  | n + 1, s =>
    match s.next tree settings levels with
    | none => .ok s
    | some result => result >>= advance tree settings levels n

theorem reaches_of_advance {n : Nat} (h : advance tree settings levels n s = .ok s') :
    Reaches tree settings levels s s' := by
  induction n generalizing s with
  | zero =>
    obtain rfl := Except.ok.inj h
    exact .refl
  | succ n ih =>
    rw [advance] at h
    cases hnext : s.next tree settings levels with
    | none =>
      rw [hnext] at h
      obtain rfl := Except.ok.inj h
      exact .refl
    | some result =>
      rw [hnext] at h
      obtain ⟨t, rfl, h⟩ := bind_eq_ok.mp h
      exact .head hnext (ih h)

end Runs

/-! ## Stacks -/

/-- The documents that the search is inside of were entered one from the other, each from a stack that it
was not on and that had not reached the limit. -/
inductive Nested (limit : Limit) (initial : List Path) : List Level → Prop where
  | done : Nested limit initial []
  | first {level : Level} (hfile : level.file = none) (hstack : level.stack = initial) :
      Nested limit initial [level]
  | inner {level outer : Level} {rest : List Level} {target : Path} (hfile : level.file = some target)
      (hstack : level.stack = outer.stack ++ [target]) (hnew : target ∉ outer.stack)
      (hlimit : limit.isReachedBy (.int outer.stack.length) = .ok false)
      (h : Nested limit initial (outer :: rest)) : Nested limit initial (level :: outer :: rest)

namespace Nested

variable {limit : Limit} {initial : List Path} {level : Level} {outer inside : List Level}

theorem tail (h : Nested limit initial (level :: outer)) : Nested limit initial outer := by
  cases h with
  | first => exact .done
  | inner _ _ _ _ h => exact h

theorem dropReference (h : Nested limit initial (level :: outer)) (rest : List ImportReference) :
    Nested limit initial ({ level with refs := rest } :: outer) := by
  cases h with
  | first hfile hstack => exact .first hfile hstack
  | inner hfile hstack hnew hlimit h => exact .inner hfile hstack hnew hlimit h

/-- What holds of the first stack and is kept when a file is entered holds of all stacks. -/
theorem forall_stack {P : List Path → Prop} (h : Nested limit initial inside) (hfirst : P initial)
    (hpush : ∀ stack target, P stack → target ∉ stack →
      limit.isReachedBy (.int stack.length) = .ok false → P (stack ++ [target])) :
    ∀ level ∈ inside, P level.stack := by
  induction h with
  | done => simp
  | first hfile hstack => simpa [hstack] using hfirst
  | inner hfile hstack hnew hlimit h ih =>
    refine List.forall_mem_cons.mpr ⟨?_, ih⟩
    rw [hstack]
    exact hpush _ _ (ih _ List.mem_cons_self) hnew hlimit

theorem initial_subset (h : Nested limit initial inside) : ∀ level ∈ inside, initial ⊆ level.stack :=
  h.forall_stack (List.Subset.refl _) fun _ _ hsub _ _ => List.subset_append_of_subset_left _ hsub

theorem nodup (h : Nested limit initial inside) (hinitial : initial.Nodup) :
    ∀ level ∈ inside, level.stack.Nodup := by
  refine h.forall_stack hinitial fun stack target hstack hnew _ => ?_
  exact List.nodup_append.mpr ⟨hstack, List.nodup_singleton _, by grind⟩

/-- All but the first stack are longer by one than a stack that had not reached the limit. -/
theorem length_le (h : Nested limit initial inside) : ∀ level ∈ inside,
    level.stack.length ≤ initial.length ∨ ∃ n : Nat, level.stack.length = n + 1 ∧
      limit.isReachedBy (.int n) = .ok false := by
  refine h.forall_stack (P := fun stack => stack.length ≤ initial.length ∨ ∃ n : Nat, stack.length = n + 1 ∧
    limit.isReachedBy (.int n) = .ok false) (.inl (Nat.le_refl _)) fun stack target _ _ hlimit => ?_
  exact .inr ⟨stack.length, by simp, hlimit⟩

/-- The files that were entered are on the innermost stack. -/
theorem file_mem (h : Nested limit initial (level :: outer)) :
    ∀ other ∈ level :: outer, ∀ p, other.file = some p → p ∈ level.stack := by
  generalize hinside : level :: outer = inside at h
  induction h generalizing level outer with
  | done => cases hinside
  | first hfile hstack =>
    obtain ⟨rfl, rfl⟩ := List.cons.inj hinside
    intro other hother p hp
    rw [List.mem_singleton.mp hother, hfile] at hp
    cases hp
  | inner hfile hstack hnew hlimit h ih =>
    obtain ⟨rfl, rfl⟩ := List.cons.inj hinside
    intro other hother p hp
    rw [hstack, List.mem_append, List.mem_singleton]
    rcases List.mem_cons.mp hother with rfl | hother
    · exact .inr (Option.some.inj (hp.symm.trans hfile))
    · exact .inl (ih rfl other hother p hp)

end Nested

/-! ## What the search keeps -/

/-- No file was opened twice and none that was on the stack before, and every file that was opened is
being read, was entered, or is done with. -/
structure Sound (limit : Limit) (initial : List Path) (s : Search) : Prop where
  nested : Nested limit initial s.inside
  distinct : s.trace.opened.Nodup
  new : ∀ p ∈ s.trace.opened, p ∉ initial
  known : ∀ p ∈ s.trace.opened, p ∈ s.trace.checked ∨ (∃ level ∈ s.inside, level.file = some p) ∨
    ∃ place, s.reading = some (p, place)
  reading : ∀ target place, s.reading = some (target, place) → s.trace.opened.getLast? = some target ∧
    ∀ level ∈ s.inside.head?, target ∉ level.stack ∧
      limit.isReachedBy (.int level.stack.length) = .ok false

namespace Sound

variable {tree : Tree} {settings : Settings} {levels : Nat} {initial : List Path} {s s' : Search}

theorem start (base : Path) (refs : List ImportReference) :
    Sound settings.maxImportDepth initial (Search.start base initial refs) where
  nested := .first rfl rfl
  distinct := List.nodup_nil
  new := by simp [Search.start]
  known := by simp [Search.start]
  reading := by simp [Search.start]

/-- A step that opens and reads nothing. -/
theorem quiet {limit : Limit} {level : Level} {outer : List Level} {t t' : Trace}
    (h : Sound limit initial ⟨level :: outer, none, t⟩) (rest : List ImportReference)
    (hopened : t'.opened = t.opened) (hchecked : t'.checked = t.checked) :
    Sound limit initial ⟨{ level with refs := rest } :: outer, none, t'⟩ where
  nested := h.nested.dropReference rest
  distinct := hopened ▸ h.distinct
  new := hopened ▸ h.new
  known p hp := by
    have hknown := h.known p (hopened ▸ hp)
    simpa [hchecked] using hknown
  reading := by simp

theorem step (h : Sound settings.maxImportDepth initial s) (hstep : Steps tree settings levels s s') :
    Sound settings.maxImportDepth initial s' := by
  cases moves_of_steps hstep with
  | @refused level outer target place t e hload =>
    refine ⟨h.nested, h.distinct, h.new, fun p hp => ?_, by simp⟩
    rcases h.known p hp with hp | hp | ⟨place, hp⟩
    · exact .inl (List.mem_append_left _ hp)
    · exact .inr (.inl hp)
    · obtain ⟨rfl, -⟩ := Prod.mk.inj (Option.some.inj hp)
      exact .inl (List.mem_append_right _ (List.mem_singleton.mpr rfl))
  | @entered level outer target place t loaded hload =>
    obtain ⟨hnew, hlimit⟩ := (h.reading target place rfl).2 level rfl
    refine ⟨.inner rfl rfl hnew hlimit h.nested, h.distinct, h.new, fun p hp => ?_, by simp⟩
    rcases h.known p hp with hp | ⟨other, hother, hp⟩ | ⟨place, hp⟩
    · exact .inl hp
    · exact .inr (.inl ⟨other, List.mem_cons_of_mem _ hother, hp⟩)
    · obtain ⟨rfl, -⟩ := Prod.mk.inj (Option.some.inj hp)
      exact .inr (.inl ⟨_, List.mem_cons_self, rfl⟩)
  | @left level outer t hrefs =>
    have hopened : (level.file.elim t t.check).opened = t.opened := by cases level.file <;> rfl
    refine ⟨h.nested.tail, hopened ▸ h.distinct, hopened ▸ h.new, fun p hp => ?_, by simp⟩
    rcases h.known p (hopened ▸ hp) with hdone | ⟨other, hother, hentered⟩ | ⟨place, hplace⟩
    · refine .inl ?_
      cases level.file with
      | none => exact hdone
      | some file => exact List.mem_append_left _ hdone
    · rcases List.mem_cons.mp hother with rfl | hother
      · refine .inl ?_
        rw [hentered]
        exact List.mem_append_right _ (List.mem_singleton.mpr rfl)
      · exact .inr (.inl ⟨other, hother, hentered⟩)
    · cases hplace
  | other => exact h.quiet _ rfl rfl
  | closing => exact h.quiet _ (Trace.opened_addCycle _ _ _) (Trace.checked_addCycle _ _ _)
  | known => exact h.quiet _ rfl rfl
  | stopped => exact h.quiet _ rfl rfl
  | @opening level outer r rest t target hrefs hr hfile hstack hchecked hlimit =>
    have hunopened : target ∉ t.opened := by
      intro hp
      rcases h.known target hp with hp | ⟨other, hother, hp⟩ | ⟨place, hp⟩
      · exact hchecked hp
      · exact hstack (h.nested.file_mem other hother target hp)
      · cases hp
    refine ⟨h.nested.dropReference rest, ?_, ?_, ?_, ?_⟩
    · exact List.nodup_append.mpr ⟨h.distinct, List.nodup_singleton _, by grind⟩
    · intro p hp
      rcases List.mem_append.mp hp with hp | hp
      · exact h.new p hp
      · obtain rfl := List.mem_singleton.mp hp
        exact fun hinitial => hstack (h.nested.initial_subset level List.mem_cons_self hinitial)
    · intro p hp
      rcases List.mem_append.mp hp with hp | hp
      · rcases h.known p hp with hdone | ⟨other, hother, hentered⟩ | ⟨place, hplace⟩
        · exact .inl hdone
        · refine .inr (.inl ?_)
          rcases List.mem_cons.mp hother with rfl | hother
          · exact ⟨_, List.mem_cons_self, hentered⟩
          · exact ⟨other, List.mem_cons_of_mem _ hother, hentered⟩
        · cases hplace
      · obtain rfl := List.mem_singleton.mp hp
        exact .inr (.inr ⟨_, rfl⟩)
    · rintro file place ⟨⟩
      refine ⟨by simp [Trace.openFile], ?_⟩
      rintro top ⟨⟩
      exact ⟨hstack, hlimit⟩

theorem reaches (h : Sound settings.maxImportDepth initial s) (hreaches : Reaches tree settings levels s s') :
    Sound settings.maxImportDepth initial s' := by
  induction hreaches with
  | refl => exact h
  | tail _ hstep ih => exact ih.step hstep

/-- A file that is read was not read before. -/
theorem read_ne (h : Sound settings.maxImportDepth initial s)
    (hsteps : TransGen (Steps tree settings levels) s s') {target target' : Path} {place place' : String}
    (hs : s.reading = some (target, place)) (hs' : s'.reading = some (target', place')) :
    target ≠ target' := by
  rintro rfl
  obtain ⟨next, hstep, hrest⟩ := TransGen.head'_iff.mp hsteps
  obtain ⟨hnone, hsame⟩ := hstep.of_reading hs
  obtain ⟨more, hmore, hread⟩ := Reaches.exists_opened hrest hnone
  have hdistinct := (h.reaches hsteps.to_reflTransGen).distinct
  rw [hmore, hsame] at hdistinct
  -- It would stand among the files that were opened before and after.
  have hbefore : target ∈ s.trace.opened := List.mem_of_getLast? (h.reading target place hs).1
  exact (List.nodup_append.mp hdistinct).2.2 target hbefore target (hread target place' hs') rfl

end Sound

end Search

end FlowScript.Validation

namespace FlowScript

/-- A whole number has not reached a limit that is greater. -/
theorem Limit.isReachedBy_int {limit : Limit} {most : Int} (h : limit.given = .int most) (n : Int) :
    limit.isReachedBy (.int n) = .ok (decide (most ≤ n)) := by
  have hcompare : (Value.int n).compare? (.int most) = some (compare n most) := rfl
  simp only [isReachedBy, compareTo, h, hcompare, Except.map]
  rcases Int.lt_trichotomy n most with hlt | rfl | hgt
  · simp [Int.compare_eq_lt.mpr hlt, hlt]
  · simp
  · simp [Int.compare_eq_gt.mpr hgt, Int.le_of_lt hgt]

namespace Validation

open File (Path Tree)
open Relation (TransGen)
open Search

/-- Following imports comes to an end, with a result or with a fault, whatever the limit is. Every file
is read once at most, and none that was on the stack before. Whenever the search is inside of a
document, no file is on its stack twice, and the stack is not longer than the limit allows. -/
theorem follow_reads_once (tree : Tree) (settings : Settings) (levels : Nat) (base : Path)
    {stack : List Path} (document : Value) (hstack : stack.Nodup) :
    Acc (fun s' s => Steps tree settings levels s s')
      (start base stack (importReferences levels document)) ∧
    Yields tree settings levels (fun t => ⟨[], none, t⟩) (start base stack (importReferences levels document))
      (follow tree settings levels base stack none (importReferences levels document) {}) ∧
    ∀ s, Reaches tree settings levels (start base stack (importReferences levels document)) s →
      s.trace.opened.Nodup ∧ (∀ p ∈ s.trace.opened, p ∉ stack) ∧
      (∀ target place, s.reading = some (target, place) → s.trace.opened.getLast? = some target ∧
        ∀ s' target' place', TransGen (Steps tree settings levels) s s' →
          s'.reading = some (target', place') → target ≠ target') ∧
      ∀ level ∈ s.inside, level.stack.Nodup ∧
        (level.stack.length ≤ stack.length ∨ ∃ n : Nat, level.stack.length = n + 1 ∧
          settings.maxImportDepth.isReachedBy (.int n) = .ok false) ∧
        ∀ most, settings.maxImportDepth.given = .int most →
          (level.stack.length : Int) ≤ max (stack.length : Int) most := by
  have hyields := @yields_start tree settings levels base stack (importReferences levels document)
  refine ⟨hyields.acc, hyields, fun s hreaches => ?_⟩
  have hsound := (Sound.start base (importReferences levels document)).reaches hreaches
  refine ⟨hsound.distinct, hsound.new, fun target place h => ⟨(hsound.reading target place h).1, ?_⟩, ?_⟩
  · exact fun s' target' place' hsteps h' => hsound.read_ne hsteps h h'
  intro level hlevel
  have hlength := hsound.nested.length_le level hlevel
  refine ⟨hsound.nested.nodup hstack level hlevel, hlength, fun most hmost => ?_⟩
  rcases hlength with hle | ⟨n, hn, hlimit⟩
  · omega
  · rw [Limit.isReachedBy_int hmost] at hlimit
    have hlt : ¬ most ≤ (n : Int) := by simpa using hlimit
    omega

/-- The root imports two files which both import a third, and the third imports the first of them. -/
def diamond : Tree where
  here := ⟨true, [], false⟩
  files := [(fileNamed "a.yaml", "import: [c.yaml]".toUTF8.toList),
    (fileNamed "b.yaml", "import: [c.yaml]".toUTF8.toList),
    (fileNamed "c.yaml", "import: [a.yaml]".toUTF8.toList)]

def importingBoth : Value := .map [(.text "import", .list [.text "a.yaml", .text "b.yaml"])]

theorem diamond_follow_reads_once :
    ∃ last, Reaches diamond {} 50 (start diamond.here [fileNamed "root.yaml"]
        (importReferences 50 importingBoth)) last ∧ last.inside.length = 0 ∧
      last.trace.opened = [fileNamed "a.yaml", fileNamed "c.yaml", fileNamed "b.yaml"] ∧
      (∀ p ∈ last.trace.opened, p ∉ [fileNamed "root.yaml"]) := by
  have hrun : (advance diamond {} 50 12 (start diamond.here [fileNamed "root.yaml"]
      (importReferences 50 importingBoth))).toOption.map
        (fun s => (s.inside.length, s.trace.opened)) =
      some (0, [fileNamed "a.yaml", fileNamed "c.yaml", fileNamed "b.yaml"]) := by decide +kernel
  cases hlast : advance diamond {} 50 12 (start diamond.here [fileNamed "root.yaml"]
      (importReferences 50 importingBoth)) with
  | error fault => simp [hlast, Except.toOption] at hrun
  | ok last =>
    rw [hlast] at hrun
    obtain ⟨hinside, hopened⟩ := Prod.mk.inj (Option.some.inj hrun)
    have hreaches := reaches_of_advance hlast
    have hstack : [fileNamed "root.yaml"].Nodup := by decide
    obtain ⟨-, -, hreached⟩ := follow_reads_once diamond {} 50 diamond.here importingBoth hstack
    exact ⟨last, hreaches, hinside, hopened, (hreached last hreaches).2.1⟩

end Validation

end FlowScript
