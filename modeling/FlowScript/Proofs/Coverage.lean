import FlowScript.Proofs.Search
import Mathlib.Data.List.Perm.Subperm

/-!
# What the search for imports comes to

A search that ends and that the limit has not stopped has come to every document that can be reached, and
has met no fault on the way. From there on it does not matter in which order it goes: the same graph
has no faults for any search, except for a limit that is reached and cannot be written. And a limit above
the number of files stops no search at all.
-/
namespace FlowScript

/-- Whether numbers can be compared with a limit is a matter of the limit alone. -/
theorem Limit.exists_isReachedBy {limit : Limit} {v : Value} {reached : Bool}
    (h : limit.isReachedBy v = .ok reached) (w : Value) : ∃ reached', limit.isReachedBy w = .ok reached' := by
  unfold isReachedBy compareTo at *
  split at h
  · exact ⟨_, rfl⟩
  · exact ⟨_, rfl⟩
  · exact ⟨_, rfl⟩
  · cases h

/-- A limit that cannot be written and that only some counts reach is a number with too many digits. -/
theorem Limit.long_of_reached {limit : Limit} {m n : Nat} (hlimit : limit.given.isWritable = false)
    (hm : limit.isReachedBy (.int m) = .ok false) (hn : limit.isReachedBy (.int n) = .ok true) :
    ∃ most : Nat, limit.given = .int most ∧ Nat.pow 10 Number.maxDigits ≤ most ∧ most ≤ n := by
  cases hgiven : limit.given with
  | int most =>
    rw [isReachedBy_int hgiven, Except.ok.injEq] at hm hn
    have hpos : (m : Int) < most := Int.not_le.mp (of_decide_eq_false hm)
    have hle : most ≤ (n : Int) := of_decide_eq_true hn
    rw [hgiven, Value.isWritable, Number.isWritable] at hlimit
    have hlong := Nat.not_lt.mp (of_decide_eq_false hlimit)
    obtain ⟨most, rfl⟩ := Int.eq_ofNat_of_zero_le (Int.le_trans (Int.natCast_nonneg m) (Int.le_of_lt hpos))
    rw [Int.natAbs_natCast] at hlong
    exact ⟨most, rfl, hlong, Int.ofNat_le.mp hle⟩
  | bool b => simp [hgiven, Value.isWritable] at hlimit
  | float x s => simp [hgiven, Value.isWritable] at hlimit
  | _ => simp [isReachedBy, compareTo, hgiven, Except.map] at hm

namespace Validation

open File (Path Tree)
open Relation (ReflTransGen)

/-! ## Graphs without faults -/

namespace ImportGraph

variable {g : ImportGraph}

/-- Nothing stands in the way of opening a file, unless it is met too deep. -/
structure Opens (g : ImportGraph) (p : Path) : Prop where
  limit : ∃ depth : Nat, g.settings.maxImportDepth.isReachedBy (.int depth) = .ok false
  read : ∃ result, readable (Source.load g.tree g.settings (.path p)) = .ok result

/-- Nothing that can be reached from the document that is checked is a fault. -/
def Faultless (g : ImportGraph) : Prop :=
  ∀ node, ReflTransGen g.Edge g.file node → ∀ document base, g.documentAt node = some (document, base) →
    ∀ r ∈ importReferences g.levels document, ∃ target, r.located g.tree base = .ok target ∧
      (isDocumentFile g.tree target = true → g.file = some target ∨ g.Opens target)

theorem Faultless.opens (hg : g.Faultless) {base target : Path} {stack : List Path}
    {refs : List ImportReference} (hframe : Frame g base stack refs)
    (himports : g.Imports stack.getLast? target) (hnew : target ∉ stack) : g.Opens target := by
  obtain ⟨document, directory, hnode, r, hr, htarget, hfile⟩ := himports
  obtain ⟨found, hfound, hopens⟩ := hg _ hframe.reached_current document directory hnode r hr
  obtain rfl := Except.ok.inj ((resolve_of_located hfound).symm.trans htarget)
  exact (hopens hfile).resolve_left (hframe.file_ne hnew)

end ImportGraph

namespace Search

variable {g : ImportGraph} {s s' : Search}

/-! ## A search that meets no fault -/

/-- Every document that the search is inside of was come to by imports, and the file that is read is
imported by the innermost of them. -/
structure Framed (g : ImportGraph) (s : Search) : Prop where
  inside : ∀ level ∈ s.inside, Frame g level.base level.stack level.refs
  reading : ∀ target place, s.reading = some (target, place) → ∀ level ∈ s.inside.head?,
    g.Imports level.stack.getLast? target ∧ target ∉ level.stack

namespace Framed

theorem start (g : ImportGraph) :
    Framed g (Search.start g.base g.file.toList (importReferences g.levels g.document)) where
  inside := by
    intro level hlevel
    obtain rfl := List.mem_singleton.mp hlevel
    exact g.frame
  reading := nofun

/-- The innermost document has one reference less to look at. -/
theorem tail {level : Level} {outer : List Level} {reading : Option (Path × String)} {t : Trace}
    {r : ImportReference} {rest : List ImportReference} (h : Framed g ⟨level :: outer, reading, t⟩)
    (hrefs : level.refs = r :: rest) :
    ∀ other ∈ { level with refs := rest } :: outer, Frame g other.base other.stack other.refs := by
  obtain ⟨hlevel, houter⟩ := List.forall_mem_cons.mp h.inside
  exact List.forall_mem_cons.mpr ⟨(hrefs ▸ hlevel).tail, houter⟩

/-- The file that is read is not the document that is checked. -/
theorem file_ne {level : Level} {outer : List Level} {target : Path} {place : String} {t : Trace}
    (h : Framed g ⟨level :: outer, some (target, place), t⟩) : g.file ≠ some target := by
  obtain ⟨-, hnew⟩ := h.reading target place rfl level rfl
  exact (h.inside level List.mem_cons_self).file_ne hnew

theorem step (h : Framed g s) (hstep : Steps g.tree g.settings g.levels s s') : Framed g s' := by
  cases moves_of_steps hstep with
  | refused => exact ⟨h.inside, nofun⟩
  | @entered level outer target place t loaded hload =>
    obtain ⟨himports, hnew⟩ := h.reading target place rfl level rfl
    have hframe := (h.inside level List.mem_cons_self).push himports hnew hload
    exact ⟨List.forall_mem_cons.mpr ⟨hframe, h.inside⟩, nofun⟩
  | left => exact ⟨(List.forall_mem_cons.mp h.inside).2, nofun⟩
  | other hrefs => exact ⟨h.tail hrefs, nofun⟩
  | closing hrefs => exact ⟨h.tail hrefs, nofun⟩
  | known hrefs => exact ⟨h.tail hrefs, nofun⟩
  | stopped hrefs => exact ⟨h.tail hrefs, nofun⟩
  | @opening level outer r rest t target hrefs hr hfile hstack hchecked hlimit =>
    refine ⟨h.tail hrefs, ?_⟩
    rintro _ _ ⟨⟩ _ ⟨⟩
    have hframe := h.inside level List.mem_cons_self
    exact ⟨hframe.imports (hrefs ▸ List.mem_cons_self) (resolve_of_located hr) hfile, hstack⟩

theorem reaches (h : Framed g s) (hreaches : Reaches g.tree g.settings g.levels s s') : Framed g s' := by
  induction hreaches with
  | refl => exact h
  | tail _ hstep ih => exact ih.step hstep

/-- Where a file that is not on the stack is met at the limit, and the limit cannot be written. -/
structure Unshown (g : ImportGraph) (level : Level) : Prop where
  reached : g.settings.maxImportDepth.isReachedBy (.int level.stack.length) = .ok true
  unreached : ∃ depth : Nat, g.settings.maxImportDepth.isReachedBy (.int depth) = .ok false
  unwritable : g.settings.maxImportDepth.given.isWritable = false
  imported : ∃ target, isDocumentFile g.tree target = true ∧ target ∉ level.stack

theorem unshown_of_look (hg : g.Faultless) {level : Level} {outer : List Level} {r : ImportReference}
    {rest : List ImportReference} {t : Trace} {fault : Fault} (hframe : Frame g level.base level.stack (r :: rest))
    (h : look g.tree g.settings { level with refs := rest } outer r t = .error fault) :
    Unshown g level ∧ fault = .integerTooLong := by
  obtain ⟨document, hnode, hsub⟩ := hframe.current
  obtain ⟨target, hr, -⟩ := hg _ hframe.reached_current document level.base hnode r (hsub List.mem_cons_self)
  have hok {α β : Type} (a : α) (f : α → Except Fault β) : (Except.ok a >>= f) = f a := rfl
  rw [look, hr, hok] at h
  dsimp only at h
  split_ifs at h with hfile hstack hchecked
  · cases h
  · cases h
  · have himports := hframe.imports List.mem_cons_self (resolve_of_located hr) hfile
    have hnew : target ∉ level.stack := by simpa using hstack
    obtain ⟨depth, hdepth⟩ := (hg.opens hframe himports hnew).limit
    obtain ⟨reached, hreached⟩ := Limit.exists_isReachedBy hdepth (.int level.stack.length)
    rw [hreached, hok] at h
    cases reached with
    | true =>
      rw [if_pos rfl, Value.checkWritable] at h
      split_ifs at h with hwritable
      · cases h
      · obtain rfl := Except.error.inj h
        exact ⟨⟨hreached, ⟨depth, hdepth⟩, by simpa using hwritable, target, hfile, hnew⟩, rfl⟩
    | false => cases h
  · cases h

/-- The next step is no fault, except that the limit may be met that cannot be written. -/
theorem unshown_of_next (h : Framed g s) (hg : g.Faultless) {fault : Fault}
    (hnext : s.next g.tree g.settings g.levels = some (.error fault)) :
    ∃ level ∈ s.inside, Unshown g level ∧ fault = .integerTooLong := by
  obtain ⟨inside, reading, t⟩ := s
  cases inside with
  | nil => cases hnext
  | cons level outer =>
    have hframe := h.inside level List.mem_cons_self
    cases reading with
    | some file =>
      obtain ⟨target, place⟩ := file
      obtain ⟨himports, hnew⟩ := h.reading target place rfl level rfl
      obtain ⟨result, hresult⟩ := (hg.opens hframe himports hnew).read
      simp only [next, read, hresult] at hnext
      cases result with
      | error e => cases hnext
      | ok loaded => cases hnext
    | none =>
      cases hrefs : level.refs with
      | nil => simp [next, hrefs] at hnext
      | cons r rest =>
        simp only [next, hrefs, Option.some.injEq] at hnext
        exact ⟨level, List.mem_cons_self, unshown_of_look hg (hrefs ▸ hframe) hnext⟩

end Framed

/-! ## A search that comes everywhere -/

/-- The search has met a document. -/
def Met (g : ImportGraph) (t : Trace) (node : Option Path) : Prop :=
  node = g.file ∨ ∃ p ∈ t.opened, node = some p

theorem Met.mono {t t' : Trace} {node : Option Path} (h : Met g t node) (hsub : t.opened ⊆ t'.opened) :
    Met g t' node :=
  h.imp_right fun ⟨p, hp, he⟩ => ⟨p, hsub hp, he⟩

/-- The search has followed a reference: where it leads to a document, that was met. -/
def Followed (g : ImportGraph) (t : Trace) (base : Path) (r : ImportReference) : Prop :=
  ∃ target, r.located g.tree base = .ok target ∧ (isDocumentFile g.tree target = true → Met g t (some target))

theorem Followed.mono {t t' : Trace} {base : Path} {r : ImportReference} (h : Followed g t base r)
    (hsub : t.opened ⊆ t'.opened) : Followed g t' base r := by
  obtain ⟨target, htarget, hmet⟩ := h
  exact ⟨target, htarget, fun hfile => (hmet hfile).mono hsub⟩

/-- The search is inside of a document and has still to look at a reference there. -/
def Pending (inside : List Level) (base : Path) (r : ImportReference) : Prop :=
  ∃ level ∈ inside, level.base = base ∧ r ∈ level.refs

/-- Every reference of the documents that were met was followed, unless the search has still to look at
it or to read the document. -/
structure Covered (g : ImportGraph) (s : Search) : Prop where
  inside : ∀ level ∈ s.inside, ∀ p, p ∈ level.stack ∨ level.file = some p → Met g s.trace (some p)
  reading : ∀ p place, s.reading = some (p, place) → p ∈ s.trace.opened
  checked : ∀ p ∈ s.trace.checked, Met g s.trace (some p)
  limit : s.trace.opened ≠ [] →
    ∃ depth : Nat, g.settings.maxImportDepth.isReachedBy (.int depth) = .ok false
  read : ∀ p ∈ s.trace.opened, (∃ place, s.reading = some (p, place)) ∨
    ∃ result, readable (Source.load g.tree g.settings (.path p)) = .ok result
  followed : ∀ node document base, Met g s.trace node → g.documentAt node = some (document, base) →
    ∀ r ∈ importReferences g.levels document, Followed g s.trace base r ∨ Pending s.inside base r ∨
      ∃ p place, node = some p ∧ s.reading = some (p, place)

namespace Covered

theorem start (g : ImportGraph) :
    Covered g (Search.start g.base g.file.toList (importReferences g.levels g.document)) where
  inside := by
    intro level hlevel p hp
    obtain rfl := List.mem_singleton.mp hlevel
    rcases hp with hp | hp
    · exact .inl (Option.mem_toList.mp hp).symm
    · cases hp
  reading := nofun
  checked := nofun
  limit h := absurd rfl h
  read := nofun
  followed := by
    rintro node document base (rfl | ⟨p, hp, -⟩) hnode r hr
    · rw [ImportGraph.documentAt, if_pos rfl] at hnode
      obtain ⟨rfl, rfl⟩ := Prod.mk.inj (Option.some.inj hnode)
      exact .inr (.inl ⟨_, List.mem_singleton_self _, rfl, hr⟩)
    · cases hp

variable {level : Level} {outer : List Level} {t t' : Trace} {r : ImportReference}
  {rest : List ImportReference}

/-- One reference less to look at. -/
theorem inside_tail (h : Covered g ⟨level :: outer, none, t⟩) (rest : List ImportReference)
    (hsub : t.opened ⊆ t'.opened) : ∀ other ∈ { level with refs := rest } :: outer,
      ∀ p, p ∈ other.stack ∨ other.file = some p → Met g t' (some p) := by
  obtain ⟨hlevel, houter⟩ := List.forall_mem_cons.mp h.inside
  refine List.forall_mem_cons.mpr ⟨fun p hp => (hlevel p hp).mono hsub, ?_⟩
  exact fun other hother p hp => (houter other hother p hp).mono hsub

/-- The reference that is looked at no more has been followed. -/
theorem followed_tail (h : Covered g ⟨level :: outer, none, t⟩) (hrefs : level.refs = r :: rest)
    (hsub : t.opened ⊆ t'.opened) (hr : Followed g t' level.base r) {node : Option Path} {document : Value}
    {base : Path} (hmet : Met g t node) (hnode : g.documentAt node = some (document, base))
    {x : ImportReference} (hx : x ∈ importReferences g.levels document) :
    Followed g t' base x ∨ Pending ({ level with refs := rest } :: outer) base x := by
  rcases h.followed node document base hmet hnode x hx with hx | ⟨other, hother, hbase, hx⟩ | ⟨_, _, -, hx⟩
  · exact .inl (hx.mono hsub)
  · rcases List.mem_cons.mp hother with rfl | hother
    · rw [hrefs] at hx
      rcases List.mem_cons.mp hx with rfl | hx
      · exact .inl (hbase ▸ hr)
      · exact .inr ⟨_, List.mem_cons_self, hbase, hx⟩
    · exact .inr ⟨other, List.mem_cons_of_mem _ hother, hbase, hx⟩
  · cases hx

/-- A step that looks at a reference and opens nothing. -/
theorem quiet (h : Covered g ⟨level :: outer, none, t⟩) (hrefs : level.refs = r :: rest)
    (hopened : t'.opened = t.opened) (hchecked : t'.checked = t.checked)
    (hr : Followed g t level.base r) : Covered g ⟨{ level with refs := rest } :: outer, none, t'⟩ := by
  have hsub : t.opened ⊆ t'.opened := hopened ▸ List.Subset.refl _
  have hback : t'.opened ⊆ t.opened := hopened ▸ List.Subset.refl _
  refine ⟨h.inside_tail rest hsub, nofun, fun p hp => (h.checked p (hchecked ▸ hp)).mono hsub,
    fun hne => h.limit (hopened ▸ hne), fun p hp => h.read p (hopened ▸ hp), ?_⟩
  intro node document base hmet hnode x hx
  exact (h.followed_tail hrefs hsub (hr.mono hsub) (hmet.mono hback) hnode hx).imp_right .inl

variable {target : Path} {place : String}

theorem refused {e : LoadError} (h : Covered g ⟨level :: outer, some (target, place), t⟩)
    (hframed : Framed g ⟨level :: outer, some (target, place), t⟩)
    (hload : Source.load g.tree g.settings (.path target) = .error (.refused e)) :
    Covered g ⟨level :: outer, none, (t.add (loadWarning e place)).check target⟩ := by
  refine ⟨h.inside, nofun, fun p hp => ?_, h.limit, fun p hp => ?_, ?_⟩
  · rcases List.mem_append.mp hp with hp | hp
    · exact h.checked p hp
    · exact .inr ⟨target, h.reading target place rfl, by rw [List.mem_singleton.mp hp]⟩
  · rcases h.read p hp with ⟨_, ⟨⟩⟩ | hread
    · exact .inr ⟨.error e, by rw [hload, readable]⟩
    · exact .inr hread
  · intro node document base hmet hnode r hr
    rcases h.followed node document base hmet hnode r hr with hr | hr | ⟨p, _, rfl, ⟨⟩⟩
    · exact .inl hr
    · exact .inr (.inl hr)
    · -- A file that could not be loaded holds no document.
      rw [ImportGraph.documentAt_of_ne hframed.file_ne, hload] at hnode
      cases hnode

theorem entered {loaded : Loaded} (h : Covered g ⟨level :: outer, some (target, place), t⟩)
    (hframed : Framed g ⟨level :: outer, some (target, place), t⟩)
    (hload : Source.load g.tree g.settings (.path target) = .ok loaded) :
    Covered g ⟨⟨some target, target.parent, level.stack ++ [target], some place,
      importReferences g.levels loaded.document⟩ :: level :: outer, none, t⟩ := by
  have hmet : Met g t (some target) := .inr ⟨target, h.reading target place rfl, rfl⟩
  refine ⟨List.forall_mem_cons.mpr ⟨fun p hp => ?_, h.inside⟩, nofun, h.checked, h.limit, fun p hp => ?_, ?_⟩
  · rcases hp with hp | hp
    · rcases List.mem_append.mp hp with hp | hp
      · exact h.inside level List.mem_cons_self p (.inl hp)
      · exact List.mem_singleton.mp hp ▸ hmet
    · exact hp ▸ hmet
  · rcases h.read p hp with ⟨_, ⟨⟩⟩ | hread
    · exact .inr ⟨.ok loaded, by rw [hload, readable]⟩
    · exact .inr hread
  · intro node document base hmet hnode r hr
    rcases h.followed node document base hmet hnode r hr with hr | ⟨other, hother, hr⟩ | ⟨p, _, rfl, ⟨⟩⟩
    · exact .inl hr
    · exact .inr (.inl ⟨other, List.mem_cons_of_mem _ hother, hr⟩)
    · -- All references of the document that was entered are still to be looked at.
      rw [ImportGraph.documentAt_of_ne hframed.file_ne, hload] at hnode
      obtain ⟨rfl, rfl⟩ := Prod.mk.inj (Option.some.inj hnode)
      exact .inr (.inl ⟨_, List.mem_cons_self, rfl, hr⟩)

theorem left (h : Covered g ⟨level :: outer, none, t⟩) (hrefs : level.refs = []) :
    Covered g ⟨outer, none, level.file.elim t t.check⟩ := by
  obtain ⟨hlevel, houter⟩ := List.forall_mem_cons.mp h.inside
  have hfollowed : ∀ node document base, Met g t node → g.documentAt node = some (document, base) →
      ∀ r ∈ importReferences g.levels document, Followed g t base r ∨ Pending outer base r ∨
        ∃ p place, node = some p ∧ (none : Option (Path × String)) = some (p, place) := by
    intro node document base hmet hnode r hr
    rcases h.followed node document base hmet hnode r hr with hr | ⟨other, hother, hbase, hr⟩ | hr
    · exact .inl hr
    · rcases List.mem_cons.mp hother with rfl | hother
      · simp [hrefs] at hr
      · exact .inr (.inl ⟨other, hother, hbase, hr⟩)
    · exact .inr (.inr hr)
  cases hfile : level.file with
  | none => exact ⟨houter, nofun, h.checked, h.limit, h.read, hfollowed⟩
  | some file =>
    refine ⟨houter, nofun, fun p hp => ?_, h.limit, h.read, hfollowed⟩
    rcases List.mem_append.mp hp with hp | hp
    · exact h.checked p hp
    · exact hlevel p (.inr (List.mem_singleton.mp hp ▸ hfile))

theorem opening (h : Covered g ⟨level :: outer, none, t⟩) (hrefs : level.refs = r :: rest)
    (hr : r.located g.tree level.base = .ok target)
    (hlimit : g.settings.maxImportDepth.isReachedBy (.int level.stack.length) = .ok false) :
    Covered g ⟨{ level with refs := rest } :: outer, some (target, place), t.openFile target⟩ := by
  have hsub : t.opened ⊆ (t.openFile target).opened := List.subset_append_left _ _
  have hlast : target ∈ (t.openFile target).opened := List.mem_append_right _ (List.mem_singleton_self _)
  have hr' : Followed g (t.openFile target) level.base r := ⟨target, hr, fun _ => .inr ⟨target, hlast, rfl⟩⟩
  refine ⟨h.inside_tail rest hsub, ?_, fun p hp => (h.checked p hp).mono hsub, ?_, fun p hp => ?_, ?_⟩
  · rintro _ _ ⟨⟩
    exact hlast
  · exact fun _ => ⟨_, hlimit⟩
  · rcases List.mem_append.mp hp with hp | hp
    · exact .inr ((h.read p hp).resolve_left nofun)
    · exact .inl ⟨place, by rw [List.mem_singleton.mp hp]⟩
  · intro node document base hmet hnode x hx
    rcases hmet with hmet | ⟨p, hp, rfl⟩
    · exact (h.followed_tail hrefs hsub hr' (.inl hmet) hnode hx).imp_right .inl
    · rcases List.mem_append.mp hp with hp | hp
      · exact (h.followed_tail hrefs hsub hr' (.inr ⟨p, hp, rfl⟩) hnode hx).imp_right .inl
      · obtain rfl := List.mem_singleton.mp hp
        exact .inr (.inr ⟨p, place, rfl, rfl⟩)

theorem step (h : Covered g s) (hframed : Framed g s) (hstep : Steps g.tree g.settings g.levels s s')
    (hlimit : s'.trace.Unlimited g.settings) : Covered g s' := by
  cases moves_of_steps hstep with
  | refused hload => exact h.refused hframed hload
  | entered hload => exact h.entered hframed hload
  | left hrefs => exact h.left hrefs
  | other hrefs hr hfile => exact h.quiet hrefs rfl rfl ⟨_, hr, fun hdocument => by simp [hfile] at hdocument⟩
  | closing hrefs hr hfile hstack =>
    have hmet := h.inside _ List.mem_cons_self _ (.inl hstack)
    exact h.quiet hrefs (Trace.opened_addCycle _ _ _) (Trace.checked_addCycle _ _ _) ⟨_, hr, fun _ => hmet⟩
  | known hrefs hr hfile hstack hchecked =>
    exact h.quiet hrefs rfl rfl ⟨_, hr, fun _ => h.checked _ hchecked⟩
  | stopped => exact absurd (List.mem_append_right _ (List.mem_singleton_self _)) (hlimit _ _)
  | opening hrefs hr hfile hstack hchecked hreached => exact h.opening hrefs hr hreached

end Covered

theorem Steps.grows {tree : Tree} {settings : Settings} {levels : Nat} (h : Steps tree settings levels s s') :
    s.trace.Grows s'.trace := by
  cases moves_of_steps h with
  | refused => exact (Trace.Grows.add _ _).trans (Trace.Grows.check _ _)
  | entered => exact .refl _
  | @left level outer t hrefs =>
    cases level.file with
    | none => exact .refl _
    | some file => exact Trace.Grows.check _ _
  | other => exact .refl _
  | closing => exact Trace.Grows.addCycle _ _ _
  | known => exact .refl _
  | stopped => exact Trace.Grows.add _ _
  | opening => exact Trace.Grows.openFile _ _

theorem Covered.reaches (h : Covered g s) (hframed : Framed g s)
    (hreaches : Reaches g.tree g.settings g.levels s s') (hlimit : s'.trace.Unlimited g.settings) :
    Covered g s' := by
  induction hreaches with
  | refl => exact h
  | tail hbefore hstep ih =>
    have hlimit' := fun r location hmem => hlimit r location (hstep.grows.diagnostics hmem)
    exact (ih hlimit').step (hframed.reaches hbefore) hstep hlimit

/-- In the end every document that can be reached was met. -/
theorem Covered.met {t : Trace} (h : Covered g ⟨[], none, t⟩) {node : Option Path}
    (hreaches : ReflTransGen g.Edge g.file node) : Met g t node := by
  induction hreaches with
  | refl => exact .inl rfl
  | tail _ hedge ih =>
    obtain ⟨target, rfl, document, base, hnode, r, hr, htarget, hfile⟩ := hedge
    rcases h.followed _ document base ih hnode r hr with
      ⟨found, hfound, hmet⟩ | ⟨_, hmem, -⟩ | ⟨_, _, -, hnone⟩
    · obtain rfl := Except.ok.inj ((resolve_of_located hfound).symm.trans htarget)
      exact hmet hfile
    · cases hmem
    · cases hnone

theorem Covered.faultless {t : Trace} (h : Covered g ⟨[], none, t⟩) : g.Faultless := by
  intro node hreaches document base hnode r hr
  rcases h.followed node document base (h.met hreaches) hnode r hr with
    ⟨target, htarget, hmet⟩ | ⟨_, hmem, -⟩ | ⟨_, _, -, hnone⟩
  · refine ⟨target, htarget, fun hfile => ?_⟩
    rcases hmet hfile with hroot | ⟨p, hp, hsame⟩
    · exact .inl hroot.symm
    · obtain rfl := Option.some.inj hsame
      exact .inr ⟨h.limit (List.ne_nil_of_mem hp), (h.read target hp).resolve_left nofun⟩
  · cases hmem
  · cases hnone

/-- Where a search ends and the limit has not stopped it, there are no faults to be met in any order. -/
theorem faultless_of_follow {t : Trace} (h : follow g.tree g.settings g.levels g.base g.file.toList none
    (importReferences g.levels g.document) {} = .ok t) (hlimit : t.Unlimited g.settings) : g.Faultless := by
  have hcovered := (Covered.start g).reaches (Framed.start g) (reaches_of_follow h) hlimit
  exact hcovered.faultless

end Search

/-! ## A limit that cannot be reached -/

theorem forall_mem_of_isChain_cons {α : Type} {R : α → α → Prop} {P : α → Prop} {a : α} {rest : List α}
    (h : (a :: rest).IsChain R) (hR : ∀ x y, R x y → P y) : ∀ x ∈ rest, P x := by
  induction rest generalizing a with
  | nil => simp
  | cons b rest ih =>
    obtain ⟨hab, hrest⟩ := List.isChain_cons_cons.mp h
    exact List.forall_mem_cons.mpr ⟨hR a b hab, ih hrest⟩

/-- The stack is not longer than there are files, as long as there is a file that is not on it. -/
theorem Frame.length_le {g : ImportGraph} {base target : Path} {stack : List Path}
    {refs : List ImportReference} (h : Frame g base stack refs) (hdistinct : stack.Nodup)
    (hfile : isDocumentFile g.tree target = true) (hnew : target ∉ stack) :
    stack.length ≤ g.tree.filePaths.length := by
  cases stack with
  | nil => exact Nat.zero_le _
  | cons p rest =>
    -- Only the first document may come from somewhere else; it stands for the file that is not on the stack.
    obtain ⟨-, hrest⟩ := List.nodup_cons.mp hdistinct
    have hfiles : ∀ q ∈ rest, q ∈ g.tree.filePaths := by
      refine forall_mem_of_isChain_cons h.chain fun x y himports => ?_
      obtain ⟨-, -, -, -, -, -, hy⟩ := himports
      exact filePaths_of_isDocumentFile hy
    have hsub : target :: rest ⊆ g.tree.filePaths :=
      List.cons_subset.mpr ⟨filePaths_of_isDocumentFile hfile, hfiles⟩
    have hnodup : (target :: rest).Nodup :=
      List.nodup_cons.mpr ⟨fun hmem => hnew (List.mem_cons_of_mem _ hmem), hrest⟩
    exact (hnodup.subperm hsub).length_le

namespace Trace.Unlimited

variable {settings : Settings} {t : Trace}

theorem add {d : Diagnostic} (h : t.Unlimited settings) (hd : d.kind ≠ .safety) :
    (t.add d).Unlimited settings := by
  intro r location hmem
  rcases List.mem_append.mp hmem with hmem | hmem
  · exact h r location hmem
  · exact hd (List.mem_singleton.mp hmem ▸ rfl)

theorem addCycle (h : t.Unlimited settings) (cycle : List Path) (location : String) :
    (t.addCycle cycle location).Unlimited settings := by
  unfold Trace.addCycle
  split_ifs
  · exact h
  · exact Unlimited.add (t := { t with cycles := t.cycles ++ [cycle] }) h (by simp [Diagnostic.error])

end Trace.Unlimited

namespace Search

variable {g : ImportGraph} {s s' : Search}

theorem length_le_of_reaches (hreaches : Reaches g.tree g.settings g.levels
      (start g.base g.file.toList (importReferences g.levels g.document)) s) {level : Level}
    (hlevel : level ∈ s.inside) {target : Path} (hfile : isDocumentFile g.tree target = true)
    (hnew : target ∉ level.stack) : level.stack.length ≤ g.tree.filePaths.length := by
  have hframe := ((Framed.start g).reaches hreaches).inside level hlevel
  have hfirst : g.file.toList.Nodup := by cases g.file <;> simp
  have hsound := (Sound.start g.base (importReferences g.levels g.document)).reaches hreaches
  exact hframe.length_le (hsound.nested.nodup hfirst level hlevel) hfile hnew

theorem unlimited_of_reaches
    (hlimit : ∀ n ≤ g.tree.filePaths.length, g.settings.maxImportDepth.isReachedBy (.int n) = .ok false)
    (hreaches : Reaches g.tree g.settings g.levels
      (start g.base g.file.toList (importReferences g.levels g.document)) s) :
    s.trace.Unlimited g.settings := by
  induction hreaches with
  | refl => exact fun _ _ => List.not_mem_nil
  | tail hbefore hstep ih =>
    cases moves_of_steps hstep with
    | refused => exact ih.add (by simp [loadWarning, Diagnostic.warning])
    | entered => exact ih
    | @left level outer t hrefs =>
      cases level.file with
      | none => exact ih
      | some file => exact ih
    | other => exact ih
    | closing => exact ih.addCycle _ _
    | known => exact ih
    | @stopped level outer r rest t target hrefs hr hfile hstack hchecked hreached =>
      have hfalse := hlimit _ (length_le_of_reaches hbefore List.mem_cons_self hfile hstack)
      cases hreached.symm.trans hfalse
    | opening => exact ih

theorem unlimited_of_follow {t : Trace} (h : follow g.tree g.settings g.levels g.base g.file.toList none
    (importReferences g.levels g.document) {} = .ok t)
    (hlimit : ∀ n ≤ g.tree.filePaths.length, g.settings.maxImportDepth.isReachedBy (.int n) = .ok false) :
    t.Unlimited g.settings :=
  unlimited_of_reaches hlimit (reaches_of_follow h)

/-- A search of a graph without faults comes to its end, unless it reaches a limit that cannot be written. -/
theorem exists_follow (hg : g.Faultless) :
    (∃ t, follow g.tree g.settings g.levels g.base g.file.toList none
      (importReferences g.levels g.document) {} = .ok t) ∨
    follow g.tree g.settings g.levels g.base g.file.toList none
        (importReferences g.levels g.document) {} = .error .integerTooLong ∧
      ∃ most : Nat, g.settings.maxImportDepth.given = .int most ∧ Nat.pow 10 Number.maxDigits ≤ most ∧
        most ≤ g.tree.filePaths.length := by
  have hyields := @yields_start g.tree g.settings g.levels g.base g.file.toList
    (importReferences g.levels g.document)
  generalize follow g.tree g.settings g.levels g.base g.file.toList none
    (importReferences g.levels g.document) {} = result at hyields ⊢
  cases hyields with
  | done => exact .inl ⟨_, rfl⟩
  | fault hreaches hfault =>
    obtain ⟨level, hlevel, hunshown, rfl⟩ := ((Framed.start g).reaches hreaches).unshown_of_next hg hfault
    obtain ⟨target, hfile, hnew⟩ := hunshown.imported
    obtain ⟨depth, hdepth⟩ := hunshown.unreached
    obtain ⟨most, hmost, hlong, hle⟩ := Limit.long_of_reached hunshown.unwritable hdepth hunshown.reached
    exact .inr ⟨rfl, most, hmost, hlong, hle.trans (length_le_of_reaches hreaches hlevel hfile hnew)⟩

end Search

end Validation

end FlowScript
