import FlowScript.Proofs.Blame

/-!
# The order of a preamble

Imports and helpers are needed in no order, and a preamble has one. Statements are sorted by their form and their
outermost module only, so where two of them agree in both, the order in which they come would show. The main
statement is that it shows nowhere else: as long as no two statements agree in both, the text of a preamble depends
on what is needed alone, and it has every statement and every helper once and in its place.
-/
namespace FlowScript.Program

/-! ## Import statements -/

/-- The path of a module from its outermost package on. -/
def modulePath (outermost : String) (inner : List String) : String := String.intercalate "." (outermost :: inner)

/-- What an import statement says: the module, and what is taken from it if not the module itself. -/
structure ImportForm where
  outermost : String
  inner : List String := []
  taken : Option String := none
  undotted : '.' ∉ outermost.toList
  unbroken : (modulePath outermost inner).toList.any Text.isBlank = false
  filled : modulePath outermost inner ≠ ""

namespace ImportForm

def path (form : ImportForm) : String := modulePath form.outermost form.inner

def text (form : ImportForm) : String :=
  match form.taken with
  | none => "import " ++ form.path
  | some name => "from " ++ form.path ++ " import " ++ name

/-- Both statements take something from a module or neither does, and their outermost modules are the same. -/
def Clashes (a b : ImportForm) : Prop := a.taken.isSome = b.taken.isSome ∧ a.outermost = b.outermost

/-- Whole modules come before what is taken from modules, and both are in the order of the outermost modules. -/
def Precedes (a b : ImportForm) : Prop :=
  (a.taken.isSome = false ∧ b.taken.isSome = true) ∨ (a.taken.isSome = b.taken.isSome ∧ a.outermost < b.outermost)

end ImportForm

/-- A text without blanks is one word. -/
theorem wordsFrom_unbroken {cs : List Char} (h : ∀ c ∈ cs, Text.isBlank c = false) (current : List Char) :
    Text.wordsFrom current cs = if current = [] ∧ cs = [] then [] else [current.reverse ++ cs] := by
  induction cs generalizing current with
  | nil => cases current <;> simp [Text.wordsFrom]
  | cons c cs ih =>
    rw [Text.wordsFrom, if_neg (by simp [h c List.mem_cons_self]), ih (fun d hd => h d (List.mem_cons_of_mem _ hd))]
    simp

namespace ImportForm

variable (form : ImportForm)

theorem wordsFrom_path : Text.wordsFrom [] form.path.toList = [form.path.toList] := by
  have hne : form.path.toList ≠ [] := fun hnil => form.filled (String.toList_inj.mp hnil)
  have hunbroken : ∀ c ∈ form.path.toList, Text.isBlank c = false := by
    simpa [path] using List.any_eq_false.mp form.unbroken
  rw [wordsFrom_unbroken hunbroken, if_neg (fun h => hne h.2), List.reverse_nil, List.nil_append]

/-- The second word of a statement is the path of its module. -/
theorem words_text : ∃ verb rest, Text.words form.text = verb :: form.path :: rest := by
  have hblank : Text.isBlank ' ' = true := by decide
  unfold text
  cases form.taken with
  | none =>
    have hshape : ("import " ++ form.path).toList = "import".toList ++ ' ' :: form.path.toList := by simp
    have hverb : Text.wordsFrom [] "import".toList = ["import".toList] := rfl
    refine ⟨"import", [], ?_⟩
    dsimp only
    rw [Text.words, hshape, wordsFrom_append_blank hblank, hverb, form.wordsFrom_path]
    simp
  | some name =>
    have hshape : ("from " ++ form.path ++ " import " ++ name).toList =
        "from".toList ++ ' ' :: (form.path.toList ++ ' ' :: ("import ".toList ++ name.toList)) := by simp
    have hverb : Text.wordsFrom [] "from".toList = ["from".toList] := rfl
    refine ⟨"from", (Text.wordsFrom [] ("import ".toList ++ name.toList)).map String.ofList, ?_⟩
    dsimp only
    rw [Text.words, hshape, wordsFrom_append_blank hblank, hverb, wordsFrom_append_blank hblank, form.wordsFrom_path]
    simp

theorem before_path : before '.' form.path = form.outermost := by
  have htop : ∀ c ∈ form.outermost.toList, (c != '.') = true := by
    intro c hc
    have hne : c ≠ '.' := fun he => form.undotted (he ▸ hc)
    simpa using hne
  have hshape : ∃ rest, form.path.toList = form.outermost.toList ++ rest ∧ rest.takeWhile (· != '.') = [] := by
    unfold path modulePath
    rw [String.toList_intercalate]
    cases form.inner with
    | nil => exact ⟨[], by simp⟩
    | cons next inner => exact ⟨'.' :: List.intercalate ['.'] ((next :: inner).map String.toList), by simp⟩
  obtain ⟨rest, hrest, hnone⟩ := hshape
  rw [before, hrest, List.takeWhile_append_of_pos htop, hnone, List.append_nil, String.ofList_toList]

theorem topModule_text : topModule form.text = form.outermost := by
  obtain ⟨verb, rest, hwords⟩ := form.words_text
  rw [topModule, hwords]
  exact form.before_path

theorem isSelective_text : isSelective form.text = form.taken.isSome := by
  unfold text isSelective
  cases form.taken with
  | none => simp [List.isPrefixOf]
  | some name => simp

theorem checkStatement_text : checkStatement form.text = .ok () := by
  obtain ⟨verb, rest, hwords⟩ := form.words_text
  rw [checkStatement, hwords, if_neg]
  simp

end ImportForm

/-- A statement that imports a module or something from one. -/
def IsImport (statement : String) : Prop := ∃ form : ImportForm, form.text = statement

theorem Helper.isImport_imports (helper : Helper) : ∀ statement ∈ helper.imports, IsImport statement := by
  have hsubset : helper.imports ⊆ ["import logging", "import asyncio", "import json", "import urllib.request",
      "import importlib.util", "from pathlib import Path"] := by
    cases helper <;> decide +kernel
  intro statement hstatement
  have hmem := hsubset hstatement
  simp only [List.mem_cons, List.not_mem_nil, or_false] at hmem
  rcases hmem with rfl | rfl | rfl | rfl | rfl | rfl
  · exact ⟨⟨"logging", [], none, by decide +kernel, by decide +kernel, by decide +kernel⟩, by decide +kernel⟩
  · exact ⟨⟨"asyncio", [], none, by decide +kernel, by decide +kernel, by decide +kernel⟩, by decide +kernel⟩
  · exact ⟨⟨"json", [], none, by decide +kernel, by decide +kernel, by decide +kernel⟩, by decide +kernel⟩
  · exact ⟨⟨"urllib", ["request"], none, by decide +kernel, by decide +kernel, by decide +kernel⟩, by decide +kernel⟩
  · exact ⟨⟨"importlib", ["util"], none, by decide +kernel, by decide +kernel, by decide +kernel⟩, by decide +kernel⟩
  · exact ⟨⟨"pathlib", [], some "Path", by decide +kernel, by decide +kernel, by decide +kernel⟩, by decide +kernel⟩

theorem exists_forms {statements : List String} (h : ∀ s ∈ statements, IsImport s) :
    ∃ forms : List ImportForm, forms.map ImportForm.text = statements := by
  induction statements with
  | nil => exact ⟨[], rfl⟩
  | cons s rest ih =>
    obtain ⟨form, hform⟩ := h s List.mem_cons_self
    obtain ⟨forms, hforms⟩ := ih fun s hs => h s (List.mem_cons_of_mem _ hs)
    exact ⟨form :: forms, by rw [List.map_cons, hform, hforms]⟩

/-! ## Sorted statements -/

theorem importLe_iff {a b : String} : importLe a b = true ↔ (isSelective a = false ∧ isSelective b = true) ∨
    (isSelective a = isSelective b ∧ topModule a ≤ topModule b) := by
  unfold importLe
  cases isSelective a <;> cases isSelective b <;> simp

theorem importLe_trans (a b c : String) (hab : importLe a b = true) (hbc : importLe b c = true) :
    importLe a c = true := by
  rw [importLe_iff] at *
  rcases hab with ⟨ha, hb⟩ | ⟨hform, hle⟩
  · rcases hbc with ⟨hb', -⟩ | ⟨hform', -⟩
    · rw [hb] at hb'
      cases hb'
    · exact .inl ⟨ha, hform' ▸ hb⟩
  · rcases hbc with ⟨hb, hc⟩ | ⟨hform', hle'⟩
    · exact .inl ⟨hform ▸ hb, hc⟩
    · exact .inr ⟨hform.trans hform', String.le_trans hle hle'⟩

theorem importLe_total (a b : String) : (importLe a b || importLe b a) = true := by
  rw [Bool.or_eq_true, importLe_iff, importLe_iff]
  by_cases hform : isSelective a = isSelective b
  · rcases String.le_total (topModule a) (topModule b) with hle | hle
    · exact .inl (.inr ⟨hform, hle⟩)
    · exact .inr (.inr ⟨hform.symm, hle⟩)
  · cases ha : isSelective a <;> cases hb : isSelective b <;> simp_all

theorem pairwise_sortImports (statements : List String) :
    (sortImports statements).Pairwise fun a b => importLe a b = true :=
  List.pairwise_mergeSort importLe_trans importLe_total statements

/-- No two statements among the given ones agree in form and outermost module. -/
def Distinguished (statements : List String) : Prop :=
  ∀ a b : ImportForm, a.text ∈ statements → b.text ∈ statements → a.Clashes b → a.text = b.text

theorem Distinguished.subset {statements part : List String} (h : Distinguished statements)
    (hpart : part ⊆ statements) : Distinguished part :=
  fun a b ha hb => h a b (hpart ha) (hpart hb)

theorem ImportForm.clashes_iff {a b : ImportForm} :
    a.Clashes b ↔ isSelective a.text = isSelective b.text ∧ topModule a.text = topModule b.text := by
  rw [a.isSelective_text, b.isSelective_text, a.topModule_text, b.topModule_text, Clashes]

/-- A statement that may stand before another one does, or they clash. -/
theorem ImportForm.precedes_or_clashes {a b : ImportForm} (h : importLe a.text b.text = true) :
    a.Precedes b ∨ a.Clashes b := by
  rw [importLe_iff, a.isSelective_text, b.isSelective_text, a.topModule_text, b.topModule_text] at h
  rcases h with hforms | ⟨hform, hle⟩
  · exact .inl (.inl hforms)
  · by_cases heq : a.outermost = b.outermost
    · exact .inr ⟨hform, heq⟩
    · exact .inl (.inr ⟨hform, String.not_le.mp fun hge => heq (String.le_antisymm hle hge)⟩)

section Sorting

variable {statements : List String} (hforms : ∀ s ∈ statements, IsImport s) (hclear : Distinguished statements)

include hforms hclear

/-- Statements that can be told apart are sorted alike in whatever order they come. -/
theorem sortImports_eq_of_perm {others : List String} (hperm : others.Perm statements) :
    sortImports others = sortImports statements := by
  have hsame : (sortImports others).Perm (sortImports statements) :=
    (List.mergeSort_perm _ _).trans (hperm.trans (List.mergeSort_perm _ _).symm)
  refine List.Perm.eq_of_pairwise ?_ (pairwise_sortImports others) (pairwise_sortImports statements) hsame
  intro a b ha hb hab hba
  have ha : a ∈ statements := hperm.mem_iff.mp (List.mem_mergeSort.mp ha)
  have hb : b ∈ statements := List.mem_mergeSort.mp hb
  obtain ⟨form, rfl⟩ := hforms a ha
  obtain ⟨form', rfl⟩ := hforms b hb
  refine hclear form form' ha hb (ImportForm.clashes_iff.mpr ?_)
  rcases importLe_iff.mp hab with ⟨ha, hb⟩ | ⟨hform, hle⟩
  · rcases importLe_iff.mp hba with ⟨hb', -⟩ | ⟨hform, -⟩
    · cases hb.symm.trans hb'
    · cases hb.symm.trans (hform.trans ha)
  · rcases importLe_iff.mp hba with ⟨hb, ha⟩ | ⟨-, hge⟩
    · cases ha.symm.trans (hform.trans hb)
    · exact ⟨hform, String.le_antisymm hle hge⟩

/-- Sorted statements are in the order of their forms. -/
theorem exists_precedes (hnodup : statements.Nodup) : ∃ forms : List ImportForm,
    forms.map ImportForm.text = sortImports statements ∧ forms.Pairwise ImportForm.Precedes := by
  have hperm : (sortImports statements).Perm statements := List.mergeSort_perm _ _
  obtain ⟨forms, htexts⟩ := exists_forms fun s hs => hforms s (hperm.mem_iff.mp hs)
  have hsorted := pairwise_sortImports statements
  have hdistinct : (sortImports statements).Nodup := hperm.nodup_iff.mpr hnodup
  refine ⟨forms, htexts, ?_⟩
  rw [← htexts] at hsorted hdistinct
  refine ((List.pairwise_map.mp hsorted).and (List.pairwise_map.mp hdistinct)).imp_of_mem ?_
  intro a b ha hb h
  have hmem {form : ImportForm} (hform : form ∈ forms) : form.text ∈ statements :=
    hperm.mem_iff.mp (htexts ▸ List.mem_map_of_mem hform)
  rcases ImportForm.precedes_or_clashes h.1 with hprecedes | hclash
  · exact hprecedes
  · exact absurd (hclear a b (hmem ha) (hmem hb) hclash) h.2

/-- A part of the statements is sorted in the order of its forms, in whatever order all of them come. -/
theorem exists_group (hnodup : statements.Nodup) (p : String → Bool) : ∃ forms : List ImportForm,
    forms.Pairwise ImportForm.Precedes ∧ (forms.map ImportForm.text).Perm (statements.filter p) ∧
      ∀ others : List String, others.Perm statements →
        sortImports (others.filter p) = forms.map ImportForm.text := by
  have hpart : statements.filter p ⊆ statements := List.filter_subset_self _
  have hforms : ∀ s ∈ statements.filter p, IsImport s := fun s hs => hforms s (hpart hs)
  obtain ⟨forms, htexts, hsorted⟩ := exists_precedes hforms (hclear.subset hpart) (hnodup.filter p)
  refine ⟨forms, hsorted, htexts ▸ List.mergeSort_perm _ _, fun others hperm => ?_⟩
  rw [htexts, sortImports_eq_of_perm hforms (hclear.subset hpart) (hperm.filter p)]

end Sorting

/-! ## What is needed -/

/-- Two programs need the same statements and the same helpers, in whatever order they were found and whatever
they need a statement for. -/
structure Needs.Same (needs : Needs) (extra : List String) (needs' : Needs) (extra' : List String) : Prop where
  statements : ∀ statement, needs.Wants extra statement ↔ needs'.Wants extra' statement
  helpers : ∀ helper, helper ∈ needs.helpers ↔ helper ∈ needs'.helpers

namespace Needs

variable {needs needs' : Needs} {extra extra' : List String}

theorem Same.orderedHelpers_eq (h : needs.Same extra needs' extra') :
    needs'.orderedHelpers = needs.orderedHelpers := by
  refine List.filter_congr fun helper _ => ?_
  rw [Bool.eq_iff_iff, List.contains_iff_mem, List.contains_iff_mem, h.helpers]

theorem Same.allImports_perm (h : needs.Same extra needs' extra') :
    (needs'.allImports extra').Perm (needs.allImports extra) := by
  refine (List.perm_ext_iff_of_nodup nodup_allImports nodup_allImports).mpr fun statement => ?_
  rw [mem_allImports, mem_allImports, h.statements]

theorem isImport_of_mem (hforms : ∀ s ∈ needs.imports ++ extra, IsImport s) :
    ∀ s ∈ needs.allImports extra, IsImport s := by
  intro s hs
  rcases mem_allImports.mp hs with hs | hs | ⟨helper, -, hs⟩
  · exact hforms s (List.mem_append_left _ hs)
  · exact hforms s (List.mem_append_right _ hs)
  · exact helper.isImport_imports s hs

end Needs

/-- What a preamble holds, in the order in which it is written: the statements for modules that are not among the
outside ones, those for modules that are, and the helpers. -/
structure Arrangement (needs : Needs) (extra outside : List String) where
  standard : List ImportForm
  others : List ImportForm
  helpers : List Helper
  complete : ∀ statement, statement ∈ (standard ++ others).map ImportForm.text ↔ needs.Wants extra statement
  once : ((standard ++ others).map ImportForm.text).Nodup
  inside : ∀ form ∈ standard, form.outermost ∉ outside
  outer : ∀ form ∈ others, form.outermost ∈ outside
  standard_sorted : standard.Pairwise ImportForm.Precedes
  others_sorted : others.Pairwise ImportForm.Precedes
  helpers_sorted : helpers.Sublist Helper.all
  requested : ∀ helper, helper ∈ helpers ↔ helper ∈ needs.helpers

/-- The text of a preamble; a group without statements does not show in it. -/
def Arrangement.text {needs : Needs} {extra outside : List String} (a : Arrangement needs extra outside) : String :=
  preambleText (([a.standard, a.others].map (List.map ImportForm.text)).filter (!·.isEmpty))
    (a.helpers.map Helper.source)

theorem importLines_eq (statements outside : List String) : importLines statements outside =
    [sortImports (statements.filter fun s => !outside.contains (topModule s)),
      sortImports (statements.filter fun s => outside.contains (topModule s))].filter (!·.isEmpty) := by
  have hempty (group : List String) : (sortImports group).isEmpty = group.isEmpty := by
    rw [Bool.eq_iff_iff, List.isEmpty_iff_length_eq_zero, List.isEmpty_iff_length_eq_zero, sortImports,
      List.length_mergeSort]
  have hmap : ∀ groups : List (List String),
      (groups.filter (!·.isEmpty)).map sortImports = (groups.map sortImports).filter (!·.isEmpty) := by
    intro groups
    rw [List.filter_map]
    refine congrArg (List.map sortImports) (List.filter_congr fun group _ => ?_)
    rw [Function.comp_apply, hempty]
  exact hmap _

/-- The text of a preamble depends on what is needed alone, provided that no two statements agree in form and
outermost module: it is the same for all orders in which statements, helpers and outside modules come, whether a
statement is needed by itself, by a helper or by what launches the program, and it has each statement and each helper
once and in its place. -/
theorem preamble_of_needs {needs : Needs} {extra : List String} (outside : List String)
    (hforms : ∀ s ∈ needs.imports ++ extra, IsImport s)
    (hclear : ∀ a b : ImportForm, needs.Wants extra a.text → needs.Wants extra b.text → a.Clashes b → a.text = b.text) :
    ∃ arrangement : Arrangement needs extra outside, ∀ (needs' : Needs) (extra' outside' : List String),
      needs.Same extra needs' extra' → (∀ m, m ∈ outside ↔ m ∈ outside') →
        needs'.preamble extra' outside' = .ok arrangement.text := by
  have hall := Needs.isImport_of_mem hforms
  have hdistinct : Distinguished (needs.allImports extra) := fun a b ha hb =>
    hclear a b (Needs.mem_allImports.mp ha) (Needs.mem_allImports.mp hb)
  obtain ⟨standard, hstandard, hstandardPerm, hstandardLines⟩ :=
    exists_group hall hdistinct Needs.nodup_allImports fun s => !outside.contains (topModule s)
  obtain ⟨others, hothers, hothersPerm, hothersLines⟩ :=
    exists_group hall hdistinct Needs.nodup_allImports fun s => outside.contains (topModule s)
  have hperm : ((standard ++ others).map ImportForm.text).Perm (needs.allImports extra) := by
    rw [List.map_append]
    refine (hstandardPerm.append hothersPerm).trans (List.perm_append_comm.trans ?_)
    exact List.filter_append_perm _ _
  have hinside : ∀ form ∈ standard, form.outermost ∉ outside := by
    intro form hform
    have hmem := (List.mem_filter.mp (hstandardPerm.mem_iff.mp (List.mem_map_of_mem hform))).2
    simpa [form.topModule_text] using hmem
  have houter : ∀ form ∈ others, form.outermost ∈ outside := by
    intro form hform
    have hmem := (List.mem_filter.mp (hothersPerm.mem_iff.mp (List.mem_map_of_mem hform))).2
    simpa [form.topModule_text] using hmem
  refine ⟨⟨standard, others, needs.orderedHelpers, fun s => hperm.mem_iff.trans Needs.mem_allImports,
    hperm.nodup_iff.mpr Needs.nodup_allImports, hinside, houter, hstandard, hothers, List.filter_sublist,
    fun helper => mem_orderedHelpers⟩, ?_⟩
  intro needs' extra' outside' hsame hout
  have hstatements := hsame.allImports_perm
  have hchecked : (needs'.allImports extra').forM checkStatement = .ok () := by
    refine Value.forM_eq_ok_iff.mpr fun s hs => ?_
    obtain ⟨form, rfl⟩ := hall s (hstatements.mem_iff.mp hs)
    exact form.checkStatement_text
  have hcontains (s : String) : outside'.contains (topModule s) = outside.contains (topModule s) := by
    rw [Bool.eq_iff_iff, List.contains_iff_mem, List.contains_iff_mem, hout]
  rw [preamble_eq, hchecked, importLines_eq, hsame.orderedHelpers_eq]
  simp only [hcontains, hstandardLines _ hstatements, hothersLines _ hstatements]
  rfl

/-- The needs of a program that reads a file, asks a server and writes what it gets. -/
def fetchNeeds : Needs where
  imports := ["from playwright.sync_api import Page", "import yaml", "import logging"]
  helpers := [.writeOutput, .httpRequest]

/-- The same needs as a program has them that states them the other way round, and asks for one more module itself. -/
def fetchNeedsReversed : Needs where
  imports := "import asyncio" :: fetchNeeds.imports.reverse
  helpers := fetchNeeds.helpers.reverse

theorem fetchNeeds_preamble :
    ∃ arrangement : Arrangement fetchNeeds ["import asyncio"] thirdParty,
      fetchNeeds.preamble ["import asyncio"] thirdParty = .ok arrangement.text ∧
        fetchNeedsReversed.preamble [] thirdParty.reverse = .ok arrangement.text := by
  have hforms : ∀ s ∈ fetchNeeds.imports ++ ["import asyncio"], IsImport s := by
    simp only [fetchNeeds, List.cons_append, List.nil_append, List.forall_mem_cons, List.not_mem_nil,
      false_imp_iff, implies_true, and_true]
    exact ⟨⟨⟨"playwright", ["sync_api"], some "Page", by decide +kernel, by decide +kernel, by decide +kernel⟩, rfl⟩,
      ⟨⟨"yaml", [], none, by decide +kernel, by decide +kernel, by decide +kernel⟩, rfl⟩,
      ⟨⟨"logging", [], none, by decide +kernel, by decide +kernel, by decide +kernel⟩, rfl⟩,
      ⟨⟨"asyncio", [], none, by decide +kernel, by decide +kernel, by decide +kernel⟩, rfl⟩⟩
  have happart : ∀ s ∈ fetchNeeds.allImports ["import asyncio"], ∀ t ∈ fetchNeeds.allImports ["import asyncio"],
      isSelective s = isSelective t ∧ topModule s = topModule t → s = t := by
    decide +kernel
  obtain ⟨arrangement, htext⟩ := preamble_of_needs thirdParty hforms fun a b ha hb hclash =>
    happart _ (Needs.mem_allImports.mpr ha) _ (Needs.mem_allImports.mpr hb) (ImportForm.clashes_iff.mp hclash)
  have hreversed : fetchNeeds.Same ["import asyncio"] fetchNeedsReversed [] := by
    refine ⟨fun statement => ?_, fun _ => List.mem_reverse.symm⟩
    simp only [Needs.Wants, fetchNeedsReversed, List.mem_cons, List.mem_reverse, List.not_mem_nil, or_false, false_or]
    tauto
  exact ⟨arrangement, htext _ _ _ ⟨fun _ => .rfl, fun _ => .rfl⟩ (fun _ => .rfl),
    htext _ _ _ hreversed fun _ => List.mem_reverse.symm⟩

end FlowScript.Program
