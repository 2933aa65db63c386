import FlowScript.Proofs.ImportCycle

/-!
# Imports that leave the project

The imports of a document are looked at twice: each is compared with the root of the project, and all of
them are followed into the files they name, which may import further files. Only the document's own
imports are compared. The main statement says what a warning and its absence mean for the files that
were opened.
-/
namespace FlowScript.Validation

open File (Path Tree)
open Relation (ReflTransGen TransGen)

/-! ## The document's own imports -/

/-- The finding that an import leaves the project. -/
def outsideWarning (root : Path) (r : ImportReference) : Diagnostic :=
  .warning .safety ("Import path '" ++ r.target ++ "' resolves outside the project root '" ++
    root.text ++ "'.") r.location

theorem outsideWarning_injective (root : Path) : (outsideWarning root).Injective := by
  intro r r' h
  obtain ⟨target, location⟩ := r
  obtain ⟨target', location'⟩ := r'
  simp only [outsideWarning, Diagnostic.warning, Diagnostic.mk.injEq, String.append_assoc,
    String.append_right_inj, String.append_left_inj] at h
  simp [h]

theorem depthWarning_ne_outsideWarning (settings : Settings) (r r' : ImportReference) (place : String)
    (root : Path) : depthWarning settings r place ≠ outsideWarning root r' := by
  intro h
  have hmessage := congrArg (fun d => d.message.toList) h
  simp [depthWarning, outsideWarning, Diagnostic.warning] at hmessage

/-- What is found about one import of the document: whether it leaves the project, then whether there
is anything. -/
theorem checkTarget_eq_ok {tree : Tree} {base root : Path} {r : ImportReference} {ds : List Diagnostic}
    (h : checkTarget tree base root r = .ok ds) :
    ∃ target, r.resolve tree base = .ok target ∧ ∃ missing : List Diagnostic,
      (∀ d ∈ missing, d.kind = .reference) ∧
      ds = (if target.isWithin root then [] else [outsideWarning root r]) ++ missing := by
  unfold checkTarget at h
  obtain ⟨target, htarget, h⟩ := bind_eq_ok.mp h
  obtain ⟨found, -, h⟩ := bind_eq_ok.mp h
  refine ⟨target, htarget, ?_⟩
  cases found with
  | true =>
    obtain rfl := Except.ok.inj h
    exact ⟨[], by simp, (List.append_nil _).symm⟩
  | false =>
    obtain rfl := Except.ok.inj h
    exact ⟨[_], by simp [Diagnostic.warning], rfl⟩

theorem outsideWarning_mem_checkTarget {tree : Tree} {base root : Path} {r r' : ImportReference}
    {ds : List Diagnostic} (h : checkTarget tree base root r = .ok ds) :
    outsideWarning root r' ∈ ds ↔
      r' = r ∧ ∃ target, r.resolve tree base = .ok target ∧ target.isWithin root = false := by
  obtain ⟨target, htarget, missing, hmissing, rfl⟩ := checkTarget_eq_ok h
  have hnew : outsideWarning root r' ∉ missing := by
    intro hmem
    have hkind := hmissing _ hmem
    simp [outsideWarning, Diagnostic.warning] at hkind
  have hsame : (∃ found, r.resolve tree base = .ok found ∧ found.isWithin root = false) ↔
      target.isWithin root = false := by
    simp [htarget]
  rw [List.mem_append, or_iff_left hnew, hsame]
  by_cases hin : target.isWithin root = true
  · simp [hin]
  · simp [hin, (outsideWarning_injective root).eq_iff]

/-! ## Files that were opened -/

/-- A document leads to one of the files that were opened. -/
def ImportGraph.Leads (g : ImportGraph) (opened : List Path) (node next : Option Path) : Prop :=
  ∃ p ∈ opened, next = some p ∧ g.Imports node p

/-- Every file was opened because of a chain of files, each opened before the next. -/
def Trace.Chained (g : ImportGraph) (t : Trace) : Prop :=
  ∀ p ∈ t.opened, TransGen (g.Leads t.opened) g.file (some p)

section Opened

variable {g : ImportGraph} {base target : Path} {stack opened opened' : List Path}
  {location : Option String} {refs : List ImportReference} {t t' : Trace} {node next : Option Path}

theorem ImportGraph.leads_mono (hsub : opened ⊆ opened') : g.Leads opened ≤ g.Leads opened' := by
  rintro node next ⟨p, hp, rfl, himports⟩
  exact ⟨p, hsub hp, rfl, himports⟩

@[simp] theorem Trace.opened_openFile (t : Trace) (p : Path) :
    (t.openFile p).opened = t.opened ++ [p] := rfl

theorem Follows.opened_subset (h : Follows g base stack location refs t t') :
    t.opened ⊆ t'.opened := by
  induction h with
  | done => exact List.Subset.refl _
  | other _ _ _ ih => exact ih
  | closing _ _ _ _ ih => simpa using ih
  | known _ _ _ ih => exact ih
  | stopped _ ih => exact ih
  | unread _ _ _ _ _ _ ih => exact List.Subset.trans (List.subset_append_left _ _) ih
  | entered _ _ _ _ _ _ _ ihinner ihrest =>
    exact List.Subset.trans (List.subset_append_left _ _) (List.Subset.trans ihinner ihrest)

/-- Opening a file that the current document imports lengthens the chain to that document. -/
theorem Trace.Chained.openFile (h : t.Chained g) (hnode : ReflTransGen (g.Leads t.opened) g.file node)
    (himports : g.Imports node target) :
    (t.openFile target).Chained g ∧
      ReflTransGen (g.Leads (t.openFile target).opened) g.file (some target) := by
  have hmono : g.Leads t.opened ≤ g.Leads (t.openFile target).opened :=
    ImportGraph.leads_mono (List.subset_append_left _ _)
  have hlast : g.Leads (t.openFile target).opened node (some target) :=
    ⟨target, by simp, rfl, himports⟩
  have htarget : TransGen (g.Leads (t.openFile target).opened) g.file (some target) :=
    TransGen.tail' (ReflTransGen.mono hmono _ _ hnode) hlast
  refine ⟨fun p hp => ?_, htarget.to_reflTransGen⟩
  rcases List.mem_append.mp hp with hp | hp
  · exact TransGen.mono hmono _ _ (h p hp)
  · obtain rfl := List.mem_singleton.mp hp
    exact htarget

theorem Follows.chained (h : Follows g base stack location refs t t') (hframe : Frame g base stack refs)
    (hnode : ReflTransGen (g.Leads t.opened) g.file stack.getLast?) (ht : t.Chained g) :
    t'.Chained g := by
  induction h with
  | done => exact ht
  | other _ _ _ ih => exact ih hframe.tail hnode ht
  | closing _ _ _ _ ih =>
    refine ih hframe.tail ?_ ?_
    · simpa using hnode
    · simpa [Trace.Chained] using ht
  | known _ _ _ ih => exact ih hframe.tail hnode ht
  | stopped _ ih => exact ih hframe.tail hnode ht
  | unread hr hfile _ _ _ _ ih =>
    have himports := hframe.imports List.mem_cons_self hr hfile
    have hopened := ht.openFile hnode himports
    refine ih hframe.tail (ReflTransGen.mono ?_ _ _ hnode) hopened.1
    exact ImportGraph.leads_mono (List.subset_append_left _ _)
  | entered hr hfile hstack _ hload hinner _ ihinner ihrest =>
    have himports := hframe.imports List.mem_cons_self hr hfile
    have hopened := ht.openFile hnode himports
    have hbelow := ihinner (hframe.push himports hstack hload)
      (by rw [List.getLast?_concat]; exact hopened.2) hopened.1
    -- Back in the importing document, the chain to it still consists of opened files.
    refine ihrest hframe.tail (ReflTransGen.mono (ImportGraph.leads_mono ?_) _ _ hnode) hbelow
    exact List.Subset.trans (List.subset_append_left _ _) hinner.opened_subset

/-- A chain that ends outside, from a document whose own imports stay inside, leaves the project at a
file inside it. -/
theorem exists_exit {root p : Path} (h : TransGen (g.Leads opened) g.file (some p))
    (hout : p.isWithin root = false)
    (hown : ∀ q ∈ opened, g.Imports g.file q → q.isWithin root = true) :
    ∃ q ∈ opened, q.isWithin root = true ∧
      ∃ q' ∈ opened, q'.isWithin root = false ∧ g.Imports (some q) q' := by
  have walk {node : Option Path} (hwalk : TransGen (g.Leads opened) g.file node) :
      ∃ q ∈ opened, node = some q ∧ (q.isWithin root = false → ∃ q ∈ opened, q.isWithin root = true ∧
        ∃ q' ∈ opened, q'.isWithin root = false ∧ g.Imports (some q) q') := by
    induction hwalk with
    | single hfirst =>
      obtain ⟨q, hq, rfl, himports⟩ := hfirst
      exact ⟨q, hq, rfl, fun hqout => by simp [hown q hq himports] at hqout⟩
    | tail _ hlast ih =>
      obtain ⟨before, hbefore, rfl, hearlier⟩ := ih
      obtain ⟨q, hq, rfl, himports⟩ := hlast
      refine ⟨q, hq, rfl, fun hqout => ?_⟩
      by_cases hin : before.isWithin root = true
      · exact ⟨before, hbefore, hin, q, hq, hqout, himports⟩
      · exact hearlier (by simpa using hin)
  obtain ⟨q, -, hq, hexit⟩ := walk h
  obtain rfl := Option.some.inj hq
  exact hexit hout

/-- What is found inside of imported files never says that an import leaves the project. -/
theorem Follows.outsideWarning_mem_iff {root : Path} {r : ImportReference}
    (h : Follows g base stack location refs t t') :
    outsideWarning root r ∈ t'.diagnostics ↔ outsideWarning root r ∈ t.diagnostics := by
  have hadd (t : Trace) {d : Diagnostic} (hd : d ≠ outsideWarning root r) :
      outsideWarning root r ∈ (t.add d).diagnostics ↔ outsideWarning root r ∈ t.diagnostics := by
    rw [Trace.add, List.mem_append, List.mem_singleton, or_iff_left (Ne.symm hd)]
  induction h with
  | done => rfl
  | other _ _ _ ih => exact ih
  | closing _ _ _ _ ih =>
    refine ih.trans ?_
    unfold Trace.addCycle
    split_ifs
    · rfl
    · exact hadd _ (by simp [outsideWarning, Diagnostic.warning, Diagnostic.error])
  | known _ _ _ ih => exact ih
  | stopped _ ih =>
    exact ih.trans (hadd _ (depthWarning_ne_outsideWarning _ _ _ _ _))
  | unread _ _ _ _ _ _ ih =>
    exact ih.trans (hadd _ (by simp [outsideWarning, loadWarning, Diagnostic.warning]))
  | entered _ _ _ _ _ _ _ ihinner ihrest => exact ihrest.trans ihinner

end Opened

/-! ## What a check tells about the files it opened -/

theorem outsideWarning_mem_targets {tree : Tree} {base root : Path} {refs : List ImportReference}
    {targets : List (List Diagnostic)} {r : ImportReference}
    (h : refs.mapM (checkTarget tree base root) = .ok targets) :
    outsideWarning root r ∈ targets.flatten ↔
      r ∈ refs ∧ ∃ target, r.resolve tree base = .ok target ∧ target.isWithin root = false := by
  rw [List.mem_flatten]
  constructor
  · rintro ⟨own, hown, hmem⟩
    obtain ⟨r', hr', hchecked⟩ := exists_of_result_mem h hown
    obtain ⟨rfl, hout⟩ := (outsideWarning_mem_checkTarget hchecked).mp hmem
    exact ⟨hr', hout⟩
  · rintro ⟨hr, hout⟩
    obtain ⟨own, hown, hchecked⟩ := exists_result_of_mem h hr
    exact ⟨own, hown, (outsideWarning_mem_checkTarget hchecked).mpr ⟨rfl, hout⟩⟩

/-- A check warns that an import leaves the project exactly for the imports of the document itself that
do. Every file that it opens is reached along imports of files that it opens, and where one lies outside,
there is such a warning or some file inside the project imports a file outside, which was opened too. -/
theorem outside_files_accounted {tree : Tree} {settings : Settings} {base : Path}
    {root file : Option Path} {document : Value} {ds : List Diagnostic}
    (h : checkImports tree settings base root file document = .ok ds) :
    ∃ g within t, ImportGraph.ofCheck tree settings base file document = .ok g ∧
      tree.resolve (root.getD g.base) = .ok within ∧
      follow tree settings g.levels g.base g.file.toList none (importReferences g.levels document) {} =
        .ok t ∧
      (∀ r, outsideWarning within r ∈ ds ↔ r ∈ importReferences g.levels document ∧
        ∃ target, r.resolve tree g.base = .ok target ∧ target.isWithin within = false) ∧
      ∀ p ∈ t.opened, TransGen (g.Leads t.opened) g.file (some p) ∧
        (p.isWithin within = false → (∃ r, outsideWarning within r ∈ ds) ∨
          ∃ q ∈ t.opened, q.isWithin within = true ∧
            ∃ q' ∈ t.opened, q'.isWithin within = false ∧ g.Imports (some q) q') := by
  unfold checkImports at h
  obtain ⟨directory, hbase, h⟩ := bind_eq_ok.mp h
  obtain ⟨within, hwithin, h⟩ := bind_eq_ok.mp h
  obtain ⟨levels, hlevels, h⟩ := bind_eq_ok.mp h
  obtain ⟨targets, htargets, h⟩ := bind_eq_ok.mp h
  obtain ⟨stack, hstack, h⟩ := bind_eq_ok.mp h
  obtain ⟨t, ht, h⟩ := bind_eq_ok.mp h
  obtain rfl := Except.ok.inj h
  obtain ⟨start, hstart, rfl⟩ := mapM_resolve_toList hstack
  let g : ImportGraph := ⟨tree, settings, levels, document, directory, start⟩
  have hg : ImportGraph.ofCheck tree settings base file document = .ok g := by
    rw [ImportGraph.ofCheck, hbase, hlevels, hstart]
    rfl
  have hfollows : Follows g g.base g.file.toList none (importReferences g.levels g.document) {} t :=
    follows_of_follow ht
  have hwarned (r : ImportReference) : outsideWarning within r ∈ targets.flatten ++ t.diagnostics ↔
      r ∈ importReferences levels document ∧
        ∃ target, r.resolve tree directory = .ok target ∧ target.isWithin within = false := by
    rw [List.mem_append, hfollows.outsideWarning_mem_iff, outsideWarning_mem_targets htargets]
    simp
  refine ⟨g, within, t, hg, hwithin, ht, hwarned, fun p hp => ?_⟩
  have hlast : g.file.toList.getLast? = g.file := by cases g.file <;> rfl
  have hchain := hfollows.chained g.frame (by rw [hlast]) (by simp [Trace.Chained]) p hp
  refine ⟨hchain, fun hout => ?_⟩
  by_cases hown : ∀ q ∈ t.opened, g.Imports g.file q → q.isWithin within = true
  · exact .inr (exists_exit hchain hout hown)
  · -- The document itself imports an opened file outside, and there it is warned of.
    push Not at hown
    obtain ⟨q, -, ⟨document', base', hdocument, r, hr, hq, -⟩, hqout⟩ := hown
    rw [ImportGraph.documentAt, if_pos rfl] at hdocument
    obtain ⟨rfl, rfl⟩ := Prod.mk.inj (Option.some.inj hdocument)
    exact .inl ⟨r, (hwarned r).mpr ⟨hr, q, hq, by simpa using hqout⟩⟩

/-! ## A project with a way out -/

theorem follow_entered {tree : Tree} {settings : Settings} {levels : Nat} {base target : Path}
    {stack : List Path} {location : Option String} {r : ImportReference} {t u : Trace} {loaded : Loaded}
    (hr : r.located tree base = .ok target) (hfile : isDocumentFile tree target = true)
    (hstack : target ∉ stack) (hchecked : target ∉ t.checked)
    (hlimit : settings.maxImportDepth.isReachedBy (.int stack.length) = .ok false)
    (hload : Source.load tree settings (.path target) = .ok loaded)
    (hinner : follow tree settings levels target.parent (stack ++ [target])
      (some (location.getD r.location)) (importReferences levels loaded.document) (t.openFile target) =
        .ok u) :
    follow tree settings levels base stack location [r] t = .ok (u.check target) := by
  have hok {α β : Type} (a : α) (f : α → Except Fault β) : (Except.ok a >>= f) = f a := rfl
  rw [follow, hr, hok, dif_pos hfile, dif_neg (by simpa using hstack), if_neg (by simpa using hchecked), hlimit, hok,
    if_neg (by simp), hload, readable, hok]
  dsimp only
  rw [hinner, hok, follow]

/-- The file inside the project. -/
def innerFile : Path := ⟨true, ["p", "a.yaml"], false⟩

/-- The file above the project. -/
def outerFile : Path := ⟨true, ["out.yaml"], false⟩

/-- A project whose one file imports the file above it. -/
def leakyProject : Tree where
  here := ⟨true, ["p"], false⟩
  files := [(innerFile, "import: [../out.yaml]".toUTF8.toList), (outerFile, "tasks: []".toUTF8.toList)]

def importing (target : String) : Value := .map [(.text "import", .list [.text target])]

/-- The import of the file above the project. -/
def outerReference : ImportReference := ⟨"../out.yaml", "/import[0]"⟩

theorem exists_load {tree : Tree} {p : Path} {refs : List ImportReference}
    (h : (Source.load tree {} (.path p)).toOption.map (fun loaded => importReferences 50 loaded.document) =
      some refs) :
    ∃ loaded, Source.load tree {} (.path p) = .ok loaded ∧ importReferences 50 loaded.document = refs := by
  cases hread : Source.load tree {} (.path p) with
  | error e => simp [hread, Except.toOption] at h
  | ok loaded =>
    rw [hread] at h
    exact ⟨loaded, rfl, Option.some.inj h⟩

/-- The file above the project imports nothing, so that following an import of it opens it alone. -/
theorem leakyProject_follow_outer {base : Path} {stack : List Path} (location : Option String)
    (hr : outerReference.located leakyProject base = .ok outerFile)
    (hstack : outerFile ∉ stack)
    (hlimit : Limit.isReachedBy (Settings.maxImportDepth {}) (.int stack.length) = .ok false)
    (t : Trace) (hchecked : outerFile ∉ t.checked) :
    follow leakyProject {} 50 base stack location [outerReference] t =
      .ok ((t.openFile outerFile).check outerFile) := by
  obtain ⟨loaded, hload, hrefs⟩ : ∃ loaded, Source.load leakyProject {} (.path outerFile) = .ok loaded ∧
      importReferences 50 loaded.document = [] := exists_load (by decide +kernel)
  refine follow_entered hr (by decide) hstack hchecked hlimit hload ?_
  rw [hrefs, follow]

theorem leakyProject_follow_inner :
    follow leakyProject {} 50 leakyProject.here [] none [⟨"a.yaml", "/import[0]"⟩] {} =
      .ok { checked := [outerFile, innerFile], opened := [innerFile, outerFile] } := by
  obtain ⟨loaded, hload, hrefs⟩ : ∃ loaded, Source.load leakyProject {} (.path innerFile) = .ok loaded ∧
      importReferences 50 loaded.document = [outerReference] := exists_load (by decide +kernel)
  refine follow_entered (u := { checked := [outerFile], opened := [innerFile, outerFile] }) rfl
    (by decide) (by decide) (by decide) rfl hload ?_
  rw [hrefs]
  exact leakyProject_follow_outer _ rfl (by decide) rfl _ (by decide)

theorem checkImports_leakyProject (target : String) {r : ImportReference} {own : List Diagnostic}
    {t : Trace} (hrefs : importReferences 50 (importing target) = [r])
    (hown : checkTarget leakyProject leakyProject.here leakyProject.here r = .ok own)
    (hfollow : follow leakyProject {} 50 leakyProject.here [] none [r] {} = .ok t) :
    checkImports leakyProject {} leakyProject.here none none (importing target) =
      .ok (own ++ t.diagnostics) := by
  have hbase : leakyProject.resolve leakyProject.here = .ok leakyProject.here := rfl
  have hlevels : Settings.walkLevels {} = .ok 50 := rfl
  refine bind_eq_ok.mpr ⟨_, hbase, bind_eq_ok.mpr ⟨_, hbase, bind_eq_ok.mpr ⟨_, hlevels, ?_⟩⟩⟩
  dsimp only
  rw [hrefs, List.mapM_cons, hown]
  refine bind_eq_ok.mpr ⟨[own], rfl, bind_eq_ok.mpr ⟨[], rfl, bind_eq_ok.mpr ⟨t, hfollow, ?_⟩⟩⟩
  simp only [List.flatten_cons, List.flatten_nil, List.append_nil]
  rfl

theorem leakyProject_outside_accounted :
    ∃ ds, checkImports leakyProject {} leakyProject.here none none (importing "../out.yaml") = .ok ds ∧
      outsideWarning leakyProject.here outerReference ∈ ds := by
  have hcheck := checkImports_leakyProject "../out.yaml" (by decide +kernel) rfl
    (leakyProject_follow_outer none rfl (by decide) rfl {} (by decide))
  obtain ⟨g, within, t, hg, hwithin, -, hwarned, -⟩ := outside_files_accounted hcheck
  obtain rfl := Except.ok.inj hg
  obtain rfl := Except.ok.inj hwithin
  refine ⟨_, hcheck, (hwarned outerReference).mpr ⟨?_, outerFile, rfl, by decide⟩⟩
  decide +kernel

/-- A file that only an imported file imports is opened without a word about where it lies. -/
theorem indirect_outside_unwarned :
    ∃ t, follow leakyProject {} 50 leakyProject.here [] none (importReferences 50 (importing "a.yaml")) {} =
        .ok t ∧
      outerFile ∈ t.opened ∧ outerFile.isWithin leakyProject.here = false ∧
      checkImports leakyProject {} leakyProject.here none none (importing "a.yaml") = .ok [] := by
  have hrefs : importReferences 50 (importing "a.yaml") = [⟨"a.yaml", "/import[0]"⟩] := by decide +kernel
  refine ⟨_, by rw [hrefs]; exact leakyProject_follow_inner, by decide, by decide, ?_⟩
  have hown : checkTarget leakyProject leakyProject.here leakyProject.here ⟨"a.yaml", "/import[0]"⟩ =
    .ok [] := rfl
  exact checkImports_leakyProject "a.yaml" hrefs hown leakyProject_follow_inner

end FlowScript.Validation
