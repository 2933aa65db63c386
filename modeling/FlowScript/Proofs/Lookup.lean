import FlowScript.Program.Transform
import FlowScript.Proofs.Detected

/-!
# Lookups of the environment

How a variable of the environment is read shows in the text of a value only if the value holds an
environment marker at a level that is resolved. A search that comes as deep as values are resolved
finds all of these, so a value in which it finds none has the same text whatever a lookup is.
-/
namespace FlowScript

variable {lookup lookup' : List Char → List Char}

namespace Marker

theorem expression_eq {inner : List Char} (h : isEnvironment inner = false) :
    expression inner lookup = expression inner lookup' := by
  unfold isEnvironment at h
  unfold expression
  cases hname : environmentName? inner with
  | some name => simp [hname] at h
  | none => rfl

/-- A reference is to a variable of the program. -/
theorem reference?_eq (s : String) : reference? s lookup = reference? s lookup' := by
  unfold reference?
  split
  · split_ifs with henv
    · rfl
    · rw [expression_eq (by simpa using henv)]
  · rfl

/-- The marker that makes up a text is one of the markers of the text. -/
theorem mem_inners_of_single? {cs inner : List Char} (h : single? cs = some inner) :
    inner ∈ (split cs).inners := by
  unfold single? at h
  cases hread : read? cs with
  | none => simp [hread] at h
  | some m =>
    simp only [hread] at h
    split_ifs at h
    obtain rfl := Option.some.inj h
    rw [split]
    split
    case h_1 found hfound =>
      obtain rfl := Option.some.inj (hread.symm.trans hfound)
      exact List.mem_cons_self
    case h_2 hnone => cases hread.symm.trans hnone

end Marker

namespace Literal

/-- A value has no environment marker at the given levels, the value itself being at level zero. -/
def Unread (levels : Int) (v : Value) : Prop :=
  ∀ depth : Nat, (depth : Int) ≤ levels → ∀ w, v.Inside depth w →
    (Marker.innersOf w).any Marker.isEnvironment = false

theorem Unread.item {levels : Int} {v w : Value} {vs : List Value} (h : Unread levels v)
    (hitems : v.items? = some vs) (hmem : w ∈ vs) : Unread (levels - 1) w :=
  fun depth hdepth _ hinside => h (depth + 1) (by omega) _ (.item hitems hmem hinside)

theorem Unread.entry {levels : Int} {v key w : Value} {es : Fields} (h : Unread levels v)
    (hfields : v.fields? = some es) (hmem : (key, w) ∈ es) : Unread (levels - 1) w :=
  fun depth hdepth _ hinside => h (depth + 1) (by omega) _ (.entry hfields hmem hinside)

theorem unread_of_usesEnvironment {v : Value} (h : usesEnvironment v = false) {levels : Int}
    (hlevels : levels ≤ environmentLevels) : Unread levels v := by
  intro depth hdepth w hinside
  have hwithin : depth ≤ environmentLevels := by omega
  obtain ⟨node, hnode, rfl⟩ := Value.exists_node_iff.2 ⟨depth, hwithin, hinside⟩
  have hall := List.any_eq_false.1 h node hnode
  simpa using hall

theorem resolve_eq {s : String} (h : (Marker.inners s).any Marker.isEnvironment = false) :
    resolve s lookup = resolve s lookup' := by
  have hinner {inner : List Char} (hmem : inner ∈ Marker.inners s) :
      Marker.expression inner lookup = Marker.expression inner lookup' :=
    Marker.expression_eq (by simpa using List.any_eq_false.1 h inner hmem)
  unfold resolve
  cases hsingle : Marker.single? s.toList with
  | some inner =>
    dsimp only
    rw [hinner (Marker.mem_inners_of_single? hsingle)]
  | none =>
    have hparts : (Marker.split s.toList).parts.flatMap (interpolatedPart lookup) =
        (Marker.split s.toList).parts.flatMap (interpolatedPart lookup') := by
      refine List.flatMap_congr fun part hpart => ?_
      rw [interpolatedPart, interpolatedPart, hinner (List.mem_map_of_mem hpart)]
    simp only [interpolated, hparts]

mutual

/-- How the environment is read does not matter to a value without environment markers. -/
theorem code_eq (v : Value) {levels : Int} (h : Unread levels v) :
    code levels v lookup = code levels v lookup' := by
  cases v with
  | list vs => rw [code, code, codeItems_eq vs fun w hw => h.item rfl hw]
  | map es => rw [code, code, codeEntries_eq es fun key w hw => h.entry rfl hw]
  | endless outline content =>
    cases content with
    | list vs => rw [code, code, codeItems_eq vs fun w hw => h.item rfl hw]
    | map es => rw [code, code, codeEntries_eq es fun key w hw => h.entry rfl hw]
    | _ => rw [code, code] <;> simp
  | text s =>
    rw [code, code]
    by_cases hlevels : levels < 0
    · rw [if_pos hlevels, if_pos hlevels]
    · rw [resolve_eq (h 0 (by omega) _ (.self _))]
  | float x origin => rw [code, code]
  | _ => rw [code, code] <;> simp

theorem codeItems_eq (vs : List Value) {levels : Int} (h : ∀ w ∈ vs, Unread levels w) :
    codeItems levels vs lookup = codeItems levels vs lookup' := by
  match vs with
  | [] => rw [codeItems, codeItems]
  | v :: vs =>
    rw [codeItems, codeItems, code_eq v (h v List.mem_cons_self),
      codeItems_eq vs fun w hw => h w (List.mem_cons_of_mem _ hw)]

theorem codeEntries_eq (es : List (Value × Value)) {levels : Int}
    (h : ∀ key w, (key, w) ∈ es → Unread levels w) :
    codeEntries levels es lookup = codeEntries levels es lookup' := by
  match es with
  | [] => rw [codeEntries, codeEntries]
  | (k, v) :: es =>
    rw [codeEntries, codeEntries, code_eq v (h k v List.mem_cons_self),
      codeEntries_eq es fun key w hw => h key w (List.mem_cons_of_mem _ hw)]

end

end Literal

theorem Value.reference?_eq (v : Value) : v.reference? lookup = v.reference? lookup' := by
  cases v with
  | text s => exact Marker.reference?_eq s
  | _ => rfl

theorem Expression.code_eq {s : String} (h : usesEnvironment s = false) (bound : String → Bool)
    (target : Option String) : code bound target s lookup = code bound target s lookup' := by
  have hparts : ((split s.toList).parts.flatMap fun part => segment bound target part.1 ++ part.2.code lookup) =
      (split s.toList).parts.flatMap fun part => segment bound target part.1 ++ part.2.code lookup' := by
    refine List.flatMap_congr fun part hpart => ?_
    have hnot := List.any_eq_false.1 h part hpart
    cases hshield : part.2 with
    | quoted text => rfl
    | marker inner =>
      rw [hshield, Protected.isEnvironment, Bool.not_eq_true] at hnot
      rw [Protected.code, Protected.code, Marker.expression_eq hnot]
  simp only [code, hparts]

end FlowScript
