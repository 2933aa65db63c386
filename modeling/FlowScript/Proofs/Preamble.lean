import FlowScript.Proofs.Following
import FlowScript.Proofs.Layout
import Mathlib.Data.List.Nodup
import Mathlib.Data.List.Perm.Basic

/-!
# The text of a preamble

A preamble is laid out as groups of import lines and the sources of helpers. Every statement that is
needed is a line of one group, and every needed helper is one of the sources, each of them once, and
nothing else stands there. A program holds one preamble, between what it says of itself and its body.
-/
namespace FlowScript.Program

/-- The lines of import statements in their groups. -/
def importLines (statements outside : List String) : List (List String) :=
  ([statements.filter fun s => !outside.contains (topModule s),
    statements.filter fun s => outside.contains (topModule s)].filter (!·.isEmpty)).map sortImports

/-- The text that opens a program. -/
def preambleText (groups : List (List String)) (sources : List String) : String :=
  let imports :=
    if groups.isEmpty then [] else [String.intercalate "\n\n" (groups.map (String.intercalate "\n"))]
  if (imports ++ sources).isEmpty then "" else "\n\n" ++ String.intercalate "\n\n\n" (imports ++ sources)

theorem importGroups_eq (statements outside : List String) :
    importGroups statements outside = (importLines statements outside).map (String.intercalate "\n") := by
  rw [importGroups, importLines, List.map_map]
  rfl

/-- Sorting and grouping neither drop a statement nor repeat one. -/
theorem count_importLines (statements outside : List String) (statement : String) :
    (importLines statements outside).flatten.count statement = statements.count statement := by
  have hsorted (groups : List (List String)) :
      (((groups.filter (!·.isEmpty)).map sortImports).flatten).count statement = groups.flatten.count statement := by
    induction groups with
    | nil => rfl
    | cons group rest ih =>
      cases hempty : group.isEmpty with
      | true => simpa [hempty, List.isEmpty_iff.mp hempty] using ih
      | false =>
        have hperm : (sortImports group).count statement = group.count statement :=
          (List.mergeSort_perm group importLe).count_eq statement
        simpa [hempty, hperm] using ih
  have hparted := (List.filter_append_perm (fun s => outside.contains (topModule s)) statements).count_eq statement
  rw [importLines, hsorted, List.flatten_cons, List.flatten_cons, List.flatten_nil, List.append_nil,
    List.count_append, Nat.add_comm, ← List.count_append, hparted]

theorem importLines_isEmpty (statements outside : List String) :
    (importLines statements outside).isEmpty = statements.isEmpty := by
  cases statements with
  | nil => rfl
  | cons s rest =>
    cases hlines : importLines (s :: rest) outside with
    | cons => rfl
    | nil =>
      have hcount := count_importLines (s :: rest) outside s
      rw [hlines, List.count_cons_self] at hcount
      simp at hcount

/-! ## Statements and helpers -/

theorem nodup_foldl_addImport {statements : List String} {needs : Needs} (h : needs.imports.Nodup) :
    (statements.foldl Needs.addImport needs).imports.Nodup := by
  induction statements generalizing needs with
  | nil => exact h
  | cons statement rest ih =>
    refine ih ?_
    unfold Needs.addImport
    split_ifs with hmem
    · exact h
    · rw [List.contains_iff_mem] at hmem
      simpa [List.nodup_append] using ⟨h, fun a ha => fun heq => hmem (heq ▸ ha)⟩

theorem mem_foldl_addImport {statements : List String} {needs : Needs} {statement : String} :
    statement ∈ (statements.foldl Needs.addImport needs).imports ↔
      statement ∈ needs.imports ∨ statement ∈ statements := by
  induction statements generalizing needs with
  | nil => simp
  | cons first rest ih =>
    rw [List.foldl_cons, ih]
    change (needs.addImport first).Has (.statement statement) ∨ _ ↔ needs.Has (.statement statement) ∨ _
    rw [has_addImport, List.mem_cons, or_assoc, Need.statement.injEq]

namespace Helper

theorem mem_all (helper : Helper) : helper ∈ all := by
  cases helper <;> decide

theorem source_injective : Function.Injective source := by
  have hnodup : (all.map source).Nodup := by decide +kernel
  exact fun a b h => List.inj_on_of_nodup_map hnodup a.mem_all b.mem_all h

theorem checkStatement_imports (helper : Helper) : ∀ s ∈ helper.imports, checkStatement s = .ok () := by
  cases helper <;> decide +kernel

end Helper

theorem mem_orderedHelpers {needs : Needs} {helper : Helper} :
    helper ∈ needs.orderedHelpers ↔ helper ∈ needs.helpers := by
  rw [Needs.orderedHelpers, List.mem_filter, List.contains_iff_mem]
  exact and_iff_right helper.mem_all

theorem count_source {needs : Needs} {helper : Helper} (h : helper ∈ needs.helpers) :
    (needs.orderedHelpers.map Helper.source).count helper.source = 1 := by
  have hnodup : needs.orderedHelpers.Nodup := List.Nodup.filter _ (by decide)
  exact List.count_eq_one_of_mem (hnodup.map Helper.source_injective)
    (List.mem_map_of_mem (mem_orderedHelpers.mpr h))

/-! ## Preambles -/

theorem preamble_eq (needs : Needs) (extra outside : List String) :
    needs.preamble extra outside = ((needs.allImports extra).forM checkStatement).map fun _ =>
      preambleText (importLines (needs.allImports extra) outside) (needs.orderedHelpers.map Helper.source) := by
  unfold Needs.preamble preambleText
  simp only [importLines_isEmpty, importGroups_eq]
  cases (needs.allImports extra).forM checkStatement <;> rfl

/-- A statement is needed by itself or by a helper. -/
def Needs.Wants (needs : Needs) (extra : List String) (statement : String) : Prop :=
  statement ∈ needs.imports ∨ statement ∈ extra ∨ ∃ helper ∈ needs.helpers, statement ∈ helper.imports

namespace Needs

variable {needs : Needs} {extra : List String}

theorem mem_allImports {statement : String} : statement ∈ needs.allImports extra ↔ needs.Wants extra statement := by
  rw [allImports, distinctImports, mem_foldl_addImport, List.mem_append, List.mem_append, List.mem_flatMap, or_assoc]
  simp only [mem_orderedHelpers, Wants, List.not_mem_nil, false_or]

theorem nodup_allImports : (needs.allImports extra).Nodup := nodup_foldl_addImport List.nodup_nil

end Needs

/-- A preamble has what a program needs, each statement and each helper once, and nothing else. -/
structure Needs.OpenedBy (needs : Needs) (extra : List String) (groups : List (List String)) (sources : List String) :
    Prop where
  statements : ∀ statement, needs.Wants extra statement → groups.flatten.count statement = 1
  helpers : ∀ helper, needs.Has (.helper helper) → sources.count helper.source = 1
  wanted : ∀ statement ∈ groups.flatten, needs.Wants extra statement
  called : ∀ source ∈ sources, ∃ helper, needs.Has (.helper helper) ∧ source = helper.source

theorem openedBy_of_preamble {needs : Needs} {extra outside : List String} {text : String}
    (h : needs.preamble extra outside = .ok text) :
    ∃ groups sources, text = preambleText groups sources ∧ needs.OpenedBy extra groups sources := by
  rw [preamble_eq] at h
  cases hcheck : (needs.allImports extra).forM checkStatement with
  | error f => simp [hcheck, Except.map] at h
  | ok u =>
    rw [hcheck] at h
    refine ⟨_, _, (Except.ok.inj h).symm, fun s hs => ?_, fun helper hhas => count_source hhas, fun s hs => ?_,
      fun source hsource => ?_⟩
    · rw [count_importLines]
      exact List.count_eq_one_of_mem Needs.nodup_allImports (Needs.mem_allImports.mpr hs)
    · rw [← List.count_pos_iff, count_importLines, List.count_pos_iff] at hs
      exact Needs.mem_allImports.mp hs
    · obtain ⟨helper, hhelper, rfl⟩ := List.mem_map.mp hsource
      exact ⟨helper, mem_orderedHelpers.mp hhelper, rfl⟩

/-- A preamble can be written as far as every statement of it names a module. -/
theorem exists_preamble {needs : Needs} {extra : List String} (outside : List String)
    (hneeds : ∀ need, needs.Has need → need.isSound) (hextra : ∀ s ∈ extra, checkStatement s = .ok ()) :
    ∃ text, needs.preamble extra outside = .ok text := by
  have hall : (needs.allImports extra).forM checkStatement = .ok () := by
    refine Value.forM_eq_ok_iff.mpr fun s hs => ?_
    rcases mem_foldl_addImport.mp hs with hs | hs
    · cases hs
    · rw [List.mem_append, List.mem_append, List.mem_flatMap] at hs
      obtain (hs | hs) | ⟨helper, -, hs⟩ := hs
      · exact hneeds (.statement s) hs
      · exact hextra s hs
      · exact helper.checkStatement_imports s hs
  rw [preamble_eq, hall]
  exact ⟨_, rfl⟩

/-! ## Programs -/

namespace Script

/-- What a program says of itself, its preamble, its body and what launches it. -/
def laidOut (script : Script) (kind preamble launcher : String) : String :=
  "\"\"\"\nAutomation " ++ kind ++ " generated by flowtree from " ++ script.source ++ ".\n\"\"\"" ++ preamble ++
    "\n\n\n" ++ "async def run_flow(" ++ script.agent.name ++ "):" ++ "\n" ++
    String.intercalate "\n" script.body ++ "\n" ++ launcher

/-- A program is written with a preamble that may have more statements than its body needs. -/
inductive RenderedWith (script : Script) (preamble : String) : Template → List String → String → Prop
  | module : RenderedWith script preamble .module [] (script.laidOut "flow" preamble "")
  | playwright {factory : Factory} {width height : String} : Factory.ofValue script.factory = .ok factory →
      RenderedWith script preamble .playwright (launcherImports factory)
        (script.laidOut "script" preamble (script.launcher factory width height))

variable {script : Script}

theorem core_append (kind preamble launcher : String) :
    script.core kind preamble ++ launcher = script.laidOut kind preamble launcher := by
  unfold core laidOut Header.code
  simp only [String.append_assoc]

theorem exists_renderedWith {template : Template} {code : String} (h : script.render template = .ok code) :
    ∃ extra outside preamble, script.needs.preamble extra outside = .ok preamble ∧
      script.RenderedWith preamble template extra code := by
  cases template with
  | module =>
    obtain ⟨preamble, hpreamble, h⟩ := bind_eq_ok.mp h
    obtain rfl := Except.ok.inj h
    refine ⟨_, _, preamble, liftFault_eq_ok.mp hpreamble, ?_⟩
    rw [← String.append_empty (s := script.core "flow" preamble), core_append]
    exact .module
  | playwright =>
    obtain ⟨factory, hfactory, h⟩ := bind_eq_ok.mp h
    obtain ⟨preamble, hpreamble, h⟩ := bind_eq_ok.mp h
    obtain ⟨width, -, h⟩ := bind_eq_ok.mp h
    obtain ⟨height, -, h⟩ := bind_eq_ok.mp h
    obtain rfl := Except.ok.inj h
    refine ⟨_, _, preamble, liftFault_eq_ok.mp hpreamble, ?_⟩
    rw [core_append]
    exact .playwright hfactory

end Script

end FlowScript.Program
