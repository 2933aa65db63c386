import FlowScript.Proofs.Containment
import FlowScript.Proofs.Coverage
import FlowScript.Proofs.Fields

/-!
# The order of imports

Which files a document leads to, and whether they import each other in a circle, does not depend on the
order in which the document lists its imports. What the search finds does depend on it where the limit
stops it, since a file that is met far down and left is not looked into again from nearer by. The main
statement is that the limit is the only reason: a search that it does not stop has come everywhere, and
so the verdict on cycles, and whether there is one at all, is the same for every order.
-/
namespace FlowScript

namespace Validation

open File (Path Tree)
open Relation (ReflTransGen TransGen)

/-! ## Documents that list their imports in another order -/

/-- Two documents that differ only in the order in which they list their imports. -/
inductive ImportsPermuted (document document' : Value) : Prop where
  | intro {before after : Fields} {listed listed' : Value} {imports imports' : List Value}
      (hfields : document.fields? = some (before ++ (.text "import", listed) :: after))
      (hfields' : document'.fields? = some (before ++ (.text "import", listed') :: after))
      (hlisted : listed.items? = some imports) (hlisted' : listed'.items? = some imports')
      (hperm : imports.Perm imports') : ImportsPermuted document document'

theorem ImportReference.resolve_eq {r r' : ImportReference} (h : r'.target = r.target) (tree : Tree)
    (base : Path) : r'.resolve tree base = r.resolve tree base := by
  rw [resolve, resolve, h]

theorem ImportReference.located_eq {r r' : ImportReference} (h : r'.target = r.target) (tree : Tree)
    (base : Path) : r'.located tree base = r.located tree base := by
  rw [located, located, resolve_eq h]

namespace ImportsPermuted

variable {document document' : Value}

theorem symm (h : ImportsPermuted document document') : ImportsPermuted document' document := by
  obtain ⟨hfields, hfields', hlisted, hlisted', hperm⟩ := h
  exact ⟨hfields', hfields, hlisted', hlisted, hperm.symm⟩

theorem field_eq (h : ImportsPermuted document document') {name : String} (hname : name ≠ "import") :
    document.field name = document'.field name := by
  obtain ⟨hfields, hfields', -, -, -⟩ := h
  have hkey : (Value.text "import").isTextOf name = false := by
    simpa [Value.isTextOf, Value.text?] using hname.symm
  simp only [Value.field, hfields, hfields', Fields.get, Fields.get?_append, Fields.get?, hkey,
    Bool.false_eq_true, if_false]

theorem entries_subset (h : ImportsPermuted document document') :
    (document.field "import").items ⊆ (document'.field "import").items := by
  obtain ⟨hfields, hfields', hlisted, hlisted', hperm⟩ := h
  have hkey : (Value.text "import").isTextOf "import" = true := rfl
  rename_i before after listed listed' imports imports'
  simp only [Value.field, hfields, hfields', Fields.get, Fields.get?_append, Fields.get?, hkey, if_true]
  -- An entry before this one would hide it in both documents.
  cases Fields.get? before "import" with
  | some other => exact List.Subset.refl _
  | none => simpa [Value.items, hlisted, hlisted'] using hperm.subset

/-- The same files are imported, perhaps from other places. -/
theorem exists_reference (h : ImportsPermuted document document') {levels : Nat} {r : ImportReference}
    (hr : r ∈ importReferences levels document) :
    ∃ r' ∈ importReferences levels document', r'.target = r.target := by
  have htasks : document.field "tasks" = document'.field "tasks" := h.field_eq (by decide)
  simp only [importReferences, Value.walkTasks, Value.walkTasksWhere, htasks, List.mem_filter,
    List.mem_append] at hr ⊢
  obtain ⟨hentry | hstep, hmarker⟩ := hr
  · obtain ⟨⟨entry, i⟩, hentry, hread⟩ := List.mem_filterMap.mp hentry
    obtain ⟨j, hj⟩ := List.mem_iff_getElem?.mp (h.entries_subset (List.fst_mem_of_mem_zipIdx hentry))
    obtain ⟨read, himport, hread⟩ := Option.bind_eq_some_iff.mp hread
    obtain ⟨target, htarget, hread⟩ := Option.bind_eq_some_iff.mp hread
    obtain rfl := Option.some.inj hread
    refine ⟨⟨target, "/import[" ++ Number.natText j ++ "]"⟩, ⟨.inl ?_, hmarker⟩, rfl⟩
    exact List.mem_filterMap.mpr ⟨(entry, j), List.mem_zipIdx_iff_getElem?.mpr hj, by simp [himport, htarget]⟩
  · exact ⟨r, ⟨.inr hstep, hmarker⟩, rfl⟩

end ImportsPermuted

/-! ## Their graphs -/

namespace ImportGraph

/-- The graph from another document in place of the one that is checked. -/
def withDocument (g : ImportGraph) (document : Value) : ImportGraph := { g with document }

variable {g : ImportGraph} {document' : Value}

theorem documentAt_withDocument {node : Option Path} (h : node ≠ g.file) (document : Value) :
    (g.withDocument document).documentAt node = g.documentAt node := by
  simp only [documentAt, withDocument, h, if_false]

theorem exists_reference_withDocument (h : ImportsPermuted g.document document') {node : Option Path}
    {document : Value} {base : Path} {r : ImportReference}
    (hnode : g.documentAt node = some (document, base)) (hr : r ∈ importReferences g.levels document) :
    ∃ found, (g.withDocument document').documentAt node = some (found, base) ∧
      ∃ r' ∈ importReferences g.levels found, r'.target = r.target := by
  by_cases hfile : node = g.file
  · rw [documentAt, if_pos hfile] at hnode
    obtain ⟨rfl, rfl⟩ := Prod.mk.inj (Option.some.inj hnode)
    exact ⟨document', if_pos hfile, h.exists_reference hr⟩
  · exact ⟨document, (documentAt_withDocument hfile document').trans hnode, r, hr, rfl⟩

theorem imports_withDocument (h : ImportsPermuted g.document document') {node : Option Path} {target : Path}
    (himports : g.Imports node target) : (g.withDocument document').Imports node target := by
  obtain ⟨document, base, hnode, r, hr, htarget, hfile⟩ := himports
  obtain ⟨found, hfound, r', hr', hsame⟩ := exists_reference_withDocument h hnode hr
  exact ⟨found, base, hfound, r', hr', (ImportReference.resolve_eq hsame _ _).trans htarget, hfile⟩

theorem edge_withDocument (h : ImportsPermuted g.document document') {node next : Option Path}
    (hedge : g.Edge node next) : (g.withDocument document').Edge node next := by
  obtain ⟨target, rfl, himports⟩ := hedge
  exact (imports_withDocument h himports).edge

theorem hasCycle_withDocument (h : ImportsPermuted g.document document') (hcycle : g.HasCycle) :
    (g.withDocument document').HasCycle := by
  obtain ⟨node, hreaches, hback⟩ := hcycle
  have hedge : g.Edge ≤ (g.withDocument document').Edge := fun _ _ => edge_withDocument h
  exact ⟨node, ReflTransGen.mono hedge _ _ hreaches, TransGen.mono hedge _ _ hback⟩

theorem Faultless.withDocument (hg : g.Faultless) (h : ImportsPermuted g.document document') :
    (g.withDocument document').Faultless := by
  -- The way there and the reference are found in the other graph as well.
  have hback : ImportsPermuted (g.withDocument document').document g.document := h.symm
  intro node hreaches document base hnode r hr
  obtain ⟨found, hfound, r', hr', hsame⟩ := exists_reference_withDocument hback hnode hr
  have hreaches' : ReflTransGen g.Edge g.file node :=
    ReflTransGen.mono (fun _ _ => edge_withDocument hback) _ _ hreaches
  obtain ⟨target, htarget, hopens⟩ := hg node hreaches' found base hfound r' hr'
  refine ⟨target, (ImportReference.located_eq hsame _ _).symm.trans htarget, fun hfile => ?_⟩
  exact (hopens hfile).imp_right fun hopens => ⟨hopens.limit, hopens.read⟩

end ImportGraph

/-! ## The verdict -/

/-- Some finding is that there is a cycle. -/
def ReportsCycle (ds : List Diagnostic) : Prop := ∃ d ∈ ds, d.isError = true ∧ d.kind = .importCycle

/-- Some finding is that the limit has stopped the search. -/
def Limited (settings : Settings) (ds : List Diagnostic) : Prop :=
  ∃ r location, depthWarning settings r location ∈ ds

section Check

variable {tree : Tree} {settings : Settings} {base : Path} {root file : Option Path}
  {document document' : Value} {ds : List Diagnostic} {g : ImportGraph}

/-- Whether a target can be looked at depends on how it is written alone. -/
theorem exists_checkTarget {within : Path} {r r' : ImportReference} {found : List Diagnostic}
    (h : r'.target = r.target) (hr : checkTarget tree base within r = .ok found) :
    ∃ found', checkTarget tree base within r' = .ok found' := by
  obtain ⟨target, htarget, hr⟩ := bind_eq_ok.mp hr
  obtain ⟨present, hpresent, -⟩ := bind_eq_ok.mp hr
  have hok {α β : Type} (a : α) (f : α → Except Fault β) : (Except.ok a >>= f) = f a := rfl
  rw [checkTarget, ImportReference.resolve_eq h, htarget, hok]
  dsimp only
  rw [hpresent, hok]
  cases present with
  | true => exact ⟨_, rfl⟩
  | false => exact ⟨_, rfl⟩

theorem reportsCycle_iff {t : Trace} {stack : List Path} (h : Explored g stack t)
    (hds : ds.filter (·.kind == .importCycle) = t.diagnostics.filter (·.kind == .importCycle)) :
    ReportsCycle ds ↔ t.cycles ≠ [] := by
  have hreported := h.reported
  rw [← hds] at hreported
  constructor
  · rintro ⟨d, hd, -, hkind⟩ hnone
    rw [hnone, List.forall₂_nil_right_iff, List.filter_eq_nil_iff] at hreported
    exact hreported d hd (by simp [hkind])
  · intro hsome
    obtain ⟨cycle, others, hcycles⟩ := List.exists_cons_of_ne_nil hsome
    rw [hcycles] at hreported
    obtain ⟨d, rest, ⟨location, rfl⟩, -, hfound⟩ := List.forall₂_cons_right_iff.mp hreported
    exact ⟨_, List.mem_of_mem_filter (hfound ▸ List.mem_cons_self), rfl, rfl⟩

/-- What is reported is a cycle, and a search that the limit has not stopped finds one if there is one. -/
theorem hasCycle_of_check (hcheck : checkImports tree settings base root file document = .ok ds)
    (hg : ImportGraph.ofCheck tree settings base file document = .ok g) :
    (ReportsCycle ds → g.HasCycle) ∧ (g.HasCycle → ReportsCycle ds ∨ Limited settings ds) := by
  obtain ⟨g', t, hg', hsettings, hfollows, hsub, hfilter⟩ := checkImports_eq_ok hcheck
  obtain rfl := Except.ok.inj (hg.symm.trans hg')
  have hexplored := hfollows.explored g.frame .initial
  rw [reportsCycle_iff hexplored hfilter]
  refine ⟨hexplored.hasCycle, fun hcycle => or_iff_not_imp_right.mpr fun hlimit => ?_⟩
  refine (hfollows.cycles_ne_nil_iff fun r location hmem => hlimit ⟨r, location, ?_⟩).mpr hcycle
  exact hsettings ▸ hsub hmem

/-- There are so many files that the limit lies among them, although it has too many digits to be written. -/
def LimitUnshown (tree : Tree) (settings : Settings) : Prop :=
  ∃ most : Nat, settings.maxImportDepth.given = .int most ∧ Nat.pow 10 Number.maxDigits ≤ most ∧
    most ≤ tree.filePaths.length

/-- Where the limit has not stopped the check of one order, the check of another order ends as well, unless it
has to show a limit that cannot be written. -/
theorem exists_checkImports (h : ImportsPermuted document document')
    (hcheck : checkImports tree settings base root file document = .ok ds) (hlimit : ¬ Limited settings ds) :
    (∃ ds', checkImports tree settings base root file document' = .ok ds') ∨
      checkImports tree settings base root file document' = .error .integerTooLong ∧ LimitUnshown tree settings := by
  obtain ⟨g, within, targets, t, hg, hwithin, htargets, ht, rfl⟩ := checkImports_eq_ok_iff.mp hcheck
  obtain ⟨directory, levels, start, hbase, hlevels, hstart, rfl⟩ := ofCheck_eq_ok hg
  have hfaultless := Search.faultless_of_follow ht fun r location hmem =>
    hlimit ⟨r, location, List.mem_append_right _ hmem⟩
  have hlooked : ∀ r' ∈ importReferences levels document', ∃ found,
      checkTarget tree directory within r' = .ok found := by
    intro r' hr'
    obtain ⟨r, hr, hsame⟩ := h.symm.exists_reference hr'
    obtain ⟨found, -, hfound⟩ := exists_result_of_mem htargets hr
    exact exists_checkTarget hsame.symm hfound
  obtain ⟨targets', htargets'⟩ := exists_results hlooked
  have hg' := ofCheck_eq hbase hlevels hstart document'
  obtain ⟨t', ht'⟩ | ⟨hfault, hunshown⟩ := Search.exists_follow (hfaultless.withDocument h)
  · exact .inl ⟨_, checkImports_eq_ok_iff.mpr ⟨_, within, targets', t', hg', hwithin, htargets', ht', rfl⟩⟩
  · refine .inr ⟨(checkImports_eq hg' hwithin htargets').trans ?_, hunshown⟩
    exact congrArg (Except.map fun t => targets'.flatten ++ t.diagnostics) hfault

theorem depthWarning_not_mem_targets {within : Path} {refs : List ImportReference}
    {targets : List (List Diagnostic)} (h : refs.mapM (checkTarget tree base within) = .ok targets)
    (r : ImportReference) (location : String) : depthWarning settings r location ∉ targets.flatten := by
  intro hmem
  obtain ⟨found, hfound, hmem⟩ := List.mem_flatten.mp hmem
  obtain ⟨r', -, hr'⟩ := exists_of_result_mem h hfound
  obtain ⟨target, -, missing, hmissing, rfl⟩ := checkTarget_eq_ok hr'
  rcases List.mem_append.mp hmem with hmem | hmem
  · split_ifs at hmem
    · cases hmem
    · exact depthWarning_ne_outsideWarning settings r r' location within (List.mem_singleton.mp hmem)
  · simpa [depthWarning, Diagnostic.warning] using hmissing _ hmem

/-- A limit above the number of files stops nothing. -/
theorem not_limited (hcheck : checkImports tree settings base root file document = .ok ds)
    (hlimit : ∀ n ≤ tree.filePaths.length, settings.maxImportDepth.isReachedBy (.int n) = .ok false) :
    ¬ Limited settings ds := by
  obtain ⟨g, within, targets, t, hg, -, htargets, ht, rfl⟩ := checkImports_eq_ok_iff.mp hcheck
  obtain ⟨directory, levels, start, -, -, -, rfl⟩ := ofCheck_eq_ok hg
  rintro ⟨r, location, hmem⟩
  rcases List.mem_append.mp hmem with hmem | hmem
  · exact depthWarning_not_mem_targets htargets r location hmem
  · exact Search.unlimited_of_follow ht hlimit r location hmem

/-- A cycle that is reported for one order is reported for another, unless the limit has stopped that check. -/
theorem reportsCycle_of_permuted {ds' : List Diagnostic} (h : ImportsPermuted document document')
    (hcheck : checkImports tree settings base root file document = .ok ds)
    (hcheck' : checkImports tree settings base root file document' = .ok ds')
    (hreports : ReportsCycle ds) : ReportsCycle ds' ∨ Limited settings ds' := by
  obtain ⟨g, -, -, -, hg, -⟩ := checkImports_eq_ok_iff.mp hcheck
  obtain ⟨directory, levels, start, hbase, hlevels, hstart, rfl⟩ := ofCheck_eq_ok hg
  have hcycle := (hasCycle_of_check hcheck hg).1 hreports
  have hg' := ofCheck_eq hbase hlevels hstart document'
  exact (hasCycle_of_check hcheck' hg').2 (ImportGraph.hasCycle_withDocument h hcycle)

end Check

/-- Only the limit makes the order of imports matter. If it has not stopped the check of a document, then
the check of a document with the same imports in another order ends as well, or there are as many files as a
limit that has too many digits to be written. If it ends it reports a cycle only if the first does, and if the
first does then it does too or says that it was stopped. Where the limit lies above the number of files, nothing
depends on the order. -/
theorem cycle_verdict_of_permuted {tree : Tree} {settings : Settings} {base : Path} {root file : Option Path}
    {document document' : Value} (h : ImportsPermuted document document') :
    (∀ ds, checkImports tree settings base root file document = .ok ds → ¬ Limited settings ds →
      (∃ ds', checkImports tree settings base root file document' = .ok ds' ∧
        (ReportsCycle ds' → ReportsCycle ds) ∧ (ReportsCycle ds → ReportsCycle ds' ∨ Limited settings ds')) ∨
      checkImports tree settings base root file document' = .error .integerTooLong ∧ LimitUnshown tree settings) ∧
    ((∀ n ≤ tree.filePaths.length, settings.maxImportDepth.isReachedBy (.int n) = .ok false) →
      ((∃ ds, checkImports tree settings base root file document = .ok ds ∧ ReportsCycle ds) ↔
        ∃ ds', checkImports tree settings base root file document' = .ok ds' ∧ ReportsCycle ds')) := by
  constructor
  · intro ds hcheck hlimit
    refine (exists_checkImports h hcheck hlimit).imp_left ?_
    rintro ⟨ds', hcheck'⟩
    refine ⟨ds', hcheck', fun hreports => ?_, reportsCycle_of_permuted h hcheck hcheck'⟩
    exact (reportsCycle_of_permuted h.symm hcheck' hcheck hreports).resolve_right hlimit
  · intro hlimit
    -- Neither check is stopped, and so both directions are the same argument.
    have hone {d d' : Value} (hd : ImportsPermuted d d')
        (hsome : ∃ ds, checkImports tree settings base root file d = .ok ds ∧ ReportsCycle ds) :
        ∃ ds', checkImports tree settings base root file d' = .ok ds' ∧ ReportsCycle ds' := by
      obtain ⟨ds, hcheck, hreports⟩ := hsome
      have hshown : ¬ LimitUnshown tree settings := by
        rintro ⟨most, hmost, -, hfiles⟩
        have hreached := hlimit most hfiles
        simp [Limit.isReachedBy_int hmost] at hreached
      obtain ⟨ds', hcheck'⟩ := (exists_checkImports hd hcheck (not_limited hcheck hlimit)).resolve_right
        fun hfault => hshown hfault.2
      refine ⟨ds', hcheck', ?_⟩
      exact (reportsCycle_of_permuted hd hcheck hcheck' hreports).resolve_right (not_limited hcheck' hlimit)
    exact ⟨hone h, hone h.symm⟩

/-! ## Two orders -/

/-- A document that lists some imports. -/
def listing (targets : List String) : Value := .map [(.text "import", .list (targets.map .text))]

theorem listing_permuted {targets targets' : List String} (h : targets.Perm targets') :
    ImportsPermuted (listing targets) (listing targets') :=
  @ImportsPermuted.intro _ _ [] [] _ _ _ _ rfl rfl rfl rfl (h.map _)

/-- The findings about a document in a directory, from the steps of the search. -/
theorem checkImports_of_advance {tree : Tree} {settings : Settings} {document : Value} {levels steps : Nat}
    {refs : List ImportReference} {targets : List (List Diagnostic)} {found : List Diagnostic}
    (hbase : tree.resolve tree.here = .ok tree.here) (hlevels : settings.walkLevels = .ok levels)
    (hrefs : importReferences levels document = refs)
    (htargets : refs.mapM (checkTarget tree tree.here tree.here) = .ok targets)
    (hrun : (Search.advance tree settings levels steps (Search.start tree.here [] refs)).toOption.map
      (fun s => (s.inside.length, s.trace.diagnostics)) = some (0, found)) :
    checkImports tree settings tree.here none none document = .ok (targets.flatten ++ found) := by
  cases hlast : Search.advance tree settings levels steps (Search.start tree.here [] refs) with
  | error fault => simp [hlast, Except.toOption] at hrun
  | ok last =>
    rw [hlast] at hrun
    obtain ⟨hinside, rfl⟩ := Prod.mk.inj (Option.some.inj hrun)
    have hfollow := Search.follow_eq_of_reaches (Search.reaches_of_advance hlast)
      (List.length_eq_zero_iff.mp hinside)
    subst hrefs
    have hstart : (none : Option Path).mapM tree.resolve = .ok none := rfl
    have hg := ofCheck_eq hbase hlevels hstart document
    exact checkImports_eq_ok_iff.mpr ⟨_, tree.here, targets, last.trace, hg, hbase, htargets, hfollow, rfl⟩

/-- The cycle among the files, as it is reported. -/
def diamondCycle : Diagnostic :=
  .error .importCycle "Import cycle detected: a.yaml -> c.yaml -> a.yaml." "/import[0]"

theorem diamond_cycle_verdict :
    checkImports diamond {} diamond.here none none (listing ["a.yaml", "b.yaml"]) = .ok [diamondCycle] ∧
    ∃ ds', checkImports diamond {} diamond.here none none (listing ["b.yaml", "a.yaml"]) = .ok ds' ∧
      ReportsCycle ds' := by
  have hrefs : importReferences 50 (listing ["a.yaml", "b.yaml"]) =
      [⟨"a.yaml", "/import[0]"⟩, ⟨"b.yaml", "/import[1]"⟩] := by decide +kernel
  have hrun : (Search.advance diamond {} 50 12 (Search.start diamond.here []
      [⟨"a.yaml", "/import[0]"⟩, ⟨"b.yaml", "/import[1]"⟩])).toOption.map
        (fun s => (s.inside.length, s.trace.diagnostics)) = some (0, [diamondCycle]) := by decide +kernel
  have htargets : [(⟨"a.yaml", "/import[0]"⟩ : ImportReference), ⟨"b.yaml", "/import[1]"⟩].mapM
      (checkTarget diamond diamond.here diamond.here) = .ok [[], []] := rfl
  have hcheck : checkImports diamond {} diamond.here none none (listing ["a.yaml", "b.yaml"]) =
      .ok [diamondCycle] := checkImports_of_advance rfl rfl hrefs htargets hrun
  have hfiles : diamond.filePaths.length = 3 := by decide
  have hlimit : ∀ n ≤ diamond.filePaths.length,
      Limit.isReachedBy (Settings.maxImportDepth {}) (.int n) = .ok false := by
    intro n hn
    have hgiven : (Settings.maxImportDepth {}).given = .int 10 := rfl
    rw [Limit.isReachedBy_int hgiven]
    simp only [Except.ok.injEq, decide_eq_false_iff_not]
    omega
  refine ⟨hcheck, ((cycle_verdict_of_permuted (listing_permuted (.swap _ _ _))).2 hlimit).mp ⟨_, hcheck, ?_⟩⟩
  exact ⟨diamondCycle, List.mem_singleton_self _, rfl, rfl⟩

/-- The first file leads to the two others, which import each other. -/
def detour : Tree where
  here := ⟨true, [], false⟩
  files := [(fileNamed "a.yaml", "import: [c.yaml]".toUTF8.toList),
    (fileNamed "c.yaml", "import: [d.yaml]".toUTF8.toList),
    (fileNamed "d.yaml", "import: [c.yaml]".toUTF8.toList)]

/-- What the document imports is opened, and what those files import, but nothing deeper. -/
def shallow : Settings := { maxImportDepth := 2 }

/-- Through the first file the second one is met so deep that its import is not followed, and it is not
opened again where the document itself imports it. In the other order it is opened first, and the cycle
is found. -/
theorem detour_verdict_depends_on_order :
    ImportsPermuted (listing ["a.yaml", "c.yaml"]) (listing ["c.yaml", "a.yaml"]) ∧
    ∃ ds ds', checkImports detour shallow detour.here none none (listing ["a.yaml", "c.yaml"]) = .ok ds ∧
      checkImports detour shallow detour.here none none (listing ["c.yaml", "a.yaml"]) = .ok ds' ∧
      ¬ ReportsCycle ds ∧ ReportsCycle ds' := by
  have hrefs : importReferences 50 (listing ["a.yaml", "c.yaml"]) =
      [⟨"a.yaml", "/import[0]"⟩, ⟨"c.yaml", "/import[1]"⟩] := by decide +kernel
  have hrefs' : importReferences 50 (listing ["c.yaml", "a.yaml"]) =
      [⟨"c.yaml", "/import[0]"⟩, ⟨"a.yaml", "/import[1]"⟩] := by decide +kernel
  have hrun : (Search.advance detour shallow 50 12 (Search.start detour.here []
      [⟨"a.yaml", "/import[0]"⟩, ⟨"c.yaml", "/import[1]"⟩])).toOption.map
        (fun s => (s.inside.length, s.trace.diagnostics)) =
      some (0, [depthWarning shallow ⟨"d.yaml", "/import[0]"⟩ "/import[0]"]) := by decide +kernel
  have hrun' : (Search.advance detour shallow 50 12 (Search.start detour.here []
      [⟨"c.yaml", "/import[0]"⟩, ⟨"a.yaml", "/import[1]"⟩])).toOption.map
        (fun s => (s.inside.length, s.trace.diagnostics)) =
      some (0, [.error .importCycle "Import cycle detected: c.yaml -> d.yaml -> c.yaml." "/import[0]"]) := by
    decide +kernel
  refine ⟨listing_permuted (.swap _ _ _), _, _, checkImports_of_advance rfl rfl hrefs rfl hrun,
    checkImports_of_advance rfl rfl hrefs' rfl hrun', ?_, ⟨_, List.mem_singleton_self _, rfl, rfl⟩⟩
  rintro ⟨d, hd, -, hkind⟩
  rw [List.mem_singleton.mp hd] at hkind
  cases hkind

end Validation

end FlowScript
