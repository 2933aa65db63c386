import FlowScript.Detection
import FlowScript.Proofs.Fields
import FlowScript.Proofs.Layout
import FlowScript.Proofs.Traversal

/-!
# What detection sees of the steps that are walked

Detection and walks are given the same number of levels and count different things with it: a walk
counts the flows it enters, and detection every list and mapping on the way. The steps of a task lie
four levels below the document, and the steps of a flow that a step owns up to five levels below that
step. So a walk may visit a step that detection does not come to. The features of a step are found if
and only if detection comes as deep as the step lies, and five times the levels of a walk are enough for
all of its steps. Whether a document has to be compiled is decided by the steps of the tasks alone.
-/
namespace FlowScript

namespace Value

/-- One value lies a number of levels below another. -/
inductive Inside : Nat → Value → Value → Prop
  | self (v : Value) : Inside 0 v v
  | item {depth : Nat} {v child w : Value} {vs : List Value} :
      v.items? = some vs → child ∈ vs → Inside depth child w → Inside (depth + 1) v w
  | entry {depth : Nat} {v key child w : Value} {es : Fields} :
      v.fields? = some es → (key, child) ∈ es → Inside depth child w → Inside (depth + 1) v w

theorem Inside.trans {d e : Nat} {u v w : Value} (huv : Inside d u v) (hvw : Inside e v w) :
    Inside (d + e) u w := by
  induction huv with
  | self v => rwa [Nat.zero_add]
  | item hitems hmem _ ih =>
    rw [Nat.add_right_comm]
    exact .item hitems hmem (ih hvw)
  | entry hfields hmem _ ih =>
    rw [Nat.add_right_comm]
    exact .entry hfields hmem (ih hvw)

theorem inside_of_mem_items {v w : Value} {vs : List Value} (hitems : v.items? = some vs) (hmem : w ∈ vs) :
    Inside 1 v w :=
  .item hitems hmem (.self w)

/-- The children of a value are what lies directly below it. -/
theorem inside_succ_iff {depth : Nat} {v w : Value} (path : String) :
    Inside (depth + 1) v w ↔ ∃ child ∈ children path v, Inside depth child.value w := by
  constructor
  · intro h
    cases h with
    | @item _ _ child _ vs hitems hmem hinside =>
      obtain ⟨i, hi, hget⟩ := List.mem_iff_getElem.1 hmem
      have hfields : v.fields? = none := by
        cases hes : v.fields? with
        | none => rfl
        | some es => cases (Program.items?_of_fields? hes).symm.trans hitems
      refine ⟨⟨child, itemPath path i⟩, ?_, hinside⟩
      simp only [children, hfields, items, hitems, Option.getD_some, List.mem_map]
      exact ⟨(child, i), List.mem_iff_getElem.2 ⟨i, by simpa using hi, by simp [hget]⟩, rfl⟩
    | @entry _ _ key child _ es hfields hmem hinside =>
      refine ⟨⟨child, keyPath path key⟩, ?_, hinside⟩
      simp only [children, hfields, List.mem_map]
      exact ⟨(key, child), hmem, rfl⟩
  · rintro ⟨child, hchild, hinside⟩
    cases hfields : v.fields? with
    | some es =>
      simp only [children, hfields, List.mem_map] at hchild
      obtain ⟨e, he, rfl⟩ := hchild
      exact .entry hfields he hinside
    | none =>
      simp only [children, hfields, List.mem_map] at hchild
      obtain ⟨n, hn, rfl⟩ := hchild
      have hmem : n.1 ∈ v.items := List.fst_mem_of_mem_zipIdx hn
      cases hitems : v.items? with
      | none => simp [items, hitems] at hmem
      | some vs => exact .item hitems (by simpa [items, hitems] using hmem) hinside

/-- The nodes within a number of levels are the values that lie at most so far below. -/
theorem exists_node_iff {levels : Nat} {path : String} {v w : Value} :
    (∃ node ∈ v.nodes levels path, node.value = w) ↔ ∃ depth ≤ levels, Inside depth v w := by
  induction levels generalizing path v with
  | zero =>
    simp only [nodes, List.mem_singleton, exists_eq_left, Nat.le_zero]
    constructor
    · rintro rfl
      exact .self v
    · intro h
      cases h
      rfl
  | succ levels ih =>
    simp only [nodes, List.mem_cons, List.mem_flatMap, exists_eq_or_imp]
    constructor
    · rintro (rfl | ⟨node, ⟨child, hchild, hnode⟩, hvalue⟩)
      · exact ⟨0, Nat.zero_le _, .self v⟩
      · obtain ⟨depth, hdepth, hinside⟩ := ih.1 ⟨node, hnode, hvalue⟩
        exact ⟨depth + 1, by omega, (inside_succ_iff path).2 ⟨child, hchild, hinside⟩⟩
    · rintro ⟨depth, hdepth, hinside⟩
      cases depth with
      | zero =>
        cases hinside
        exact .inl rfl
      | succ depth =>
        obtain ⟨child, hchild, hbelow⟩ := (inside_succ_iff path).1 hinside
        obtain ⟨node, hnode, hvalue⟩ := ih.2 ⟨depth, by omega, hbelow⟩
        exact .inr ⟨node, ⟨child, hchild, hnode⟩, hvalue⟩

/-- Every node above the last level has a path for each of its children. -/
def HasPaths (levels : Nat) (v : Value) : Prop :=
  ∀ depth < levels, ∀ w, Inside depth v w → w.isAgain = false ∧ ∀ e ∈ w.fields?.getD [], e.1.isWritable = true

theorem forM_eq_ok_iff {α : Type} {check : α → Except Fault Unit} {xs : List α} :
    xs.forM check = .ok () ↔ ∀ x ∈ xs, check x = .ok () := by
  induction xs with
  | nil => exact ⟨fun _ _ hx => absurd hx List.not_mem_nil, fun _ => rfl⟩
  | cons x xs ih =>
    rw [List.forM_eq_forM, List.forM_cons, List.forall_mem_cons]
    cases hx : check x with
    | error f => exact ⟨fun h => (nomatch h), fun h => (nomatch h.1)⟩
    | ok u => exact ⟨fun h => ⟨rfl, ih.1 h⟩, fun h => ih.2 h.2⟩

theorem checkKeys_eq_ok_iff {v : Value} :
    v.checkKeys = .ok () ↔ ∀ e ∈ v.fields?.getD [], e.1.isWritable = true := by
  rw [checkKeys, forM_eq_ok_iff, List.forall_mem_map]
  refine forall₂_congr fun e _ => ?_
  cases hwritable : e.1.isWritable <;> simp [checkWritable, hwritable]

theorem checkNodes_eq_ok_iff {levels : Nat} {v : Value} :
    v.checkNodes levels = .ok () ↔ v.HasPaths levels := by
  induction levels generalizing v with
  | zero => exact ⟨fun _ depth hdepth => absurd hdepth (Nat.not_lt_zero depth), fun _ => rfl⟩
  | succ levels ih =>
    have hhere : v.HasPaths (levels + 1) ↔ (v.isAgain = false ∧ ∀ e ∈ v.fields?.getD [], e.1.isWritable = true) ∧
        ∀ child ∈ children "" v, child.value.HasPaths levels := by
      constructor
      · intro h
        refine ⟨h 0 (Nat.succ_pos levels) v (.self v), fun child hchild depth hdepth w hw => ?_⟩
        exact h (depth + 1) (Nat.succ_lt_succ hdepth) w ((inside_succ_iff "").2 ⟨child, hchild, hw⟩)
      · rintro ⟨hself, hbelow⟩ depth hdepth w hw
        cases depth with
        | zero =>
          cases hw
          exact hself
        | succ depth =>
          obtain ⟨child, hchild, hinside⟩ := (inside_succ_iff "").1 hw
          exact hbelow child hchild depth (Nat.lt_of_succ_lt_succ hdepth) w hinside
    rw [hhere, ← checkKeys_eq_ok_iff]
    simp only [← ih]
    rw [← forM_eq_ok_iff, checkNodes]
    cases v.isAgain with
    | true => exact ⟨fun h => (nomatch h), fun h => (nomatch h.1.1)⟩
    | false =>
      cases hkeys : v.checkKeys with
      | error f => exact ⟨fun h => (nomatch h), fun h => (nomatch h.1.2)⟩
      | ok u => exact ⟨fun h => ⟨⟨rfl, rfl⟩, h⟩, fun h => h.2⟩

end Value

namespace Value

/-- What a mapping has under a name, if it is not null, lies directly below it. -/
theorem inside_get {v : Value} {es : Fields} (hfields : v.fields? = some es) {name : String}
    (hnull : (es.get name).isNull = false) : Inside 1 v (es.get name) := by
  cases hget : es.get? name with
  | none => simp [Fields.get, hget, isNull] at hnull
  | some w =>
    obtain ⟨key, -, hmem⟩ := Fields.exists_mem_of_get? hget
    rw [Fields.get, hget, Option.getD_some]
    exact .entry hfields hmem (.self w)

theorem inside_field {v : Value} {name : String} (hnull : (v.field name).isNull = false) :
    Inside 1 v (v.field name) := by
  rw [field] at hnull ⊢
  split at hnull
  case h_1 es hfields => exact inside_get hfields hnull
  case h_2 => cases hnull

/-- The list of the flow of a mapping lies directly below it. -/
theorem inside_of_fieldsFlow {v : Value} {es : Fields} {flow : Flow} (hfields : v.fields? = some es)
    (hflow : es.flow? = some flow) : ∃ list : Value, list.items? = some flow ∧ Inside 1 v list := by
  rw [Fields.flow?] at hflow
  split at hflow
  · exact ⟨_, hflow, inside_get hfields (isNull_of_items? hflow)⟩
  · exact ⟨_, hflow, inside_get hfields (isNull_of_items? hflow)⟩

/-- The list of the flow of a block is the block itself or lies directly below it. -/
theorem inside_of_flow {v : Value} {flow : Flow} (hflow : v.flow? = some flow) :
    ∃ depth ≤ 1, ∃ list : Value, list.items? = some flow ∧ Inside depth v list := by
  rw [flow?] at hflow
  cases hitems : v.items? with
  | some vs =>
    rw [hitems] at hflow
    exact ⟨0, Nat.zero_le 1, v, hitems.trans hflow, .self v⟩
  | none =>
    rw [hitems] at hflow
    obtain ⟨es, hfields, hes⟩ := Option.bind_eq_some_iff.1 hflow
    exact ⟨1, Nat.le_refl 1, inside_of_fieldsFlow hfields hes⟩

theorem isNull_of_flow {v : Value} {flow : Flow} (hflow : v.flow? = some flow) : v.isNull = false := by
  cases v <;> first | rfl | cases hflow

/-- The branches of a group are the items of a list directly below it. -/
theorem inside_of_mem_branches {v : Value} {branches : List Value} (hbranches : v.branches? = some branches)
    {branch : Value} (hmem : branch ∈ branches) : Inside 2 v branch := by
  obtain ⟨es, hfields, hes⟩ := Option.bind_eq_some_iff.1 hbranches
  split at hes
  · exact (inside_get hfields (isNull_of_items? hes)).trans (inside_of_mem_items hes hmem)
  · exact (inside_get hfields (isNull_of_items? hes)).trans (inside_of_mem_items hes hmem)

end Value

namespace Step

open Value

/-- A handler stands one level below the step, or one below the guarded block. -/
theorem inside_beside {step : Step} {v : Value} (hstep : v.step? = some step) {name : String} {block : Value}
    (hblock : block = if (step.get name).isNull then (step.get "try").field name else step.get name)
    (hnull : block.isNull = false) : ∃ depth ≤ 2, 1 ≤ depth ∧ Inside depth v block := by
  subst hblock
  by_cases hbeside : (step.get name).isNull = true
  · rw [if_pos hbeside] at hnull ⊢
    have hbody : (step.get "try").isNull = false := by
      cases hfields : (step.get "try").fields? with
      | none => simp [field, hfields, isNull] at hnull
      | some es => exact isNull_of_fields? hfields
    exact ⟨2, Nat.le_refl 2, by omega, (inside_get hstep hbody).trans (inside_field hnull)⟩
  · rw [if_neg hbeside] at hnull ⊢
    exact ⟨1, by omega, Nat.le_refl 1, inside_get hstep hnull⟩

theorem inside_of_blockFlow {v block : Value} {flow : Flow} {depth : Nat} (hinside : Inside depth v block)
    (hflow : block.flow? = some flow) :
    ∃ d, depth ≤ d ∧ d ≤ depth + 1 ∧ ∃ list : Value, list.items? = some flow ∧ Inside d v list := by
  obtain ⟨d, hd, list, hitems, hlist⟩ := inside_of_flow hflow
  exact ⟨depth + d, by omega, by omega, list, hitems, hinside.trans hlist⟩

theorem mem_filterMap_child? {suffix : String} {flow? : Option Flow} {child : Child}
    (h : child? suffix flow? = some child) : flow? = some child.flow := by
  cases flow? with
  | none => cases h
  | some flow =>
    cases h
    rfl

/-- The flows that a step owns lie one to four levels below it. -/
theorem inside_of_mem_nestedFlows {step : Step} {v : Value} (hstep : v.step? = some step) {child : Child}
    (hchild : child ∈ step.nestedFlows) :
    ∃ depth, 1 ≤ depth ∧ depth ≤ 4 ∧ ∃ list : Value, list.items? = some child.flow ∧ Inside depth v list := by
  have hblock {block : Value} {depth : Nat} (hpos : 1 ≤ depth) (hle : depth ≤ 3) (hinside : Inside depth v block)
      (hflow : block.flow? = some child.flow) :
      ∃ depth, 1 ≤ depth ∧ depth ≤ 4 ∧ ∃ list : Value, list.items? = some child.flow ∧ Inside depth v list := by
    obtain ⟨d, hlow, hhigh, hlist⟩ := inside_of_blockFlow hinside hflow
    exact ⟨d, by omega, by omega, hlist⟩
  rw [nestedFlows] at hchild
  split at hchild
  case h_1 =>
    have hbranch {name : String} (h : ((step.get "logic").field name).items? = some child.flow) :
        ∃ depth, 1 ≤ depth ∧ depth ≤ 4 ∧
          ∃ list : Value, list.items? = some child.flow ∧ Inside depth v list := by
      have hnull := isNull_of_items? h
      have hlogic : (step.get "logic").isNull = false := by
        cases hfields : (step.get "logic").fields? with
        | none => simp [field, hfields, isNull] at hnull
        | some es => exact isNull_of_fields? hfields
      exact ⟨2, by omega, by omega, _, h, (inside_get hstep hlogic).trans (inside_field hnull)⟩
    simp only [List.mem_filterMap, List.mem_cons, List.not_mem_nil, or_false, id_eq, exists_eq_or_imp,
      exists_eq_left] at hchild
    obtain h | h := hchild
    · exact hbranch (mem_filterMap_child? h)
    · exact hbranch (mem_filterMap_child? h)
  case h_2 =>
    simp only [List.mem_filterMap, List.mem_singleton, exists_eq_left, id_eq] at hchild
    have hflow := mem_filterMap_child? hchild
    exact hblock (Nat.le_refl _) (by omega) (inside_get hstep (isNull_of_flow hflow)) hflow
  case h_3 =>
    simp only [List.mem_filterMap, List.mem_cons, List.not_mem_nil, or_false, id_eq, exists_eq_or_imp,
      exists_eq_left] at hchild
    obtain h | h | h := hchild
    · have hflow := mem_filterMap_child? h
      exact hblock (Nat.le_refl _) (by omega) (inside_get hstep (isNull_of_flow hflow)) hflow
    · have hflow := mem_filterMap_child? h
      obtain ⟨d, hle, hpos, hinside⟩ := inside_beside hstep rfl (isNull_of_flow hflow)
      exact hblock hpos (by omega) hinside hflow
    · have hflow := mem_filterMap_child? h
      obtain ⟨d, hle, hpos, hinside⟩ := inside_beside hstep rfl (isNull_of_flow hflow)
      exact hblock hpos (by omega) hinside hflow
  case h_4 =>
    obtain ⟨⟨branch, i⟩, hbranch, h⟩ := List.mem_filterMap.1 hchild
    have hmem := List.fst_mem_of_mem_zipIdx hbranch
    cases hbranches : (step.get "parallel").branches? with
    | none => simp [hbranches] at hmem
    | some branches =>
      rw [hbranches, Option.getD_some] at hmem
      have hgroup : (step.get "parallel").isNull = false := by
        obtain ⟨es, hfields, -⟩ := Option.bind_eq_some_iff.1 hbranches
        exact isNull_of_fields? hfields
      have hinside := (inside_get hstep hgroup).trans (inside_of_mem_branches hbranches hmem)
      exact hblock (by omega) (Nat.le_refl _) hinside (mem_filterMap_child? h)
  case h_5 => cases hchild

/-- Only steps with a construct key own flows. -/
theorem kind_mem_of_nestedFlows {step : Step} {child : Child} (hchild : child ∈ step.nestedFlows) :
    step.kind ∈ extendedKinds := by
  cases hkind : step.kind with
  | action | unknown => simp [nestedFlows, hkind] at hchild
  | _ => decide

/-- A step of an extended kind has the key of its kind. -/
theorem has_of_kind {step : Step} {kind : Kind} (hkind : step.kind = kind) (hmem : kind ∈ extendedKinds) :
    step.has kind.name = true := by
  subst hkind
  rw [Step.kind] at hmem ⊢
  split at hmem
  case h_1 k hfind =>
    have hhas := List.find?_some hfind
    exact hhas
  case h_2 =>
    split at hmem
    · exact absurd hmem (by decide)
    · exact absurd hmem (by decide)

end Step

namespace Feature

/-- The keys of the extended kinds are keywords of features. -/
theorem exists_ofKeyword? {kind : Step.Kind} (hkind : kind ∈ Step.extendedKinds) :
    ∃ feature, ofKeyword? kind.name = some feature := by
  cases kind with
  | action | unknown => exact absurd hkind (by decide)
  | _ => exact ⟨_, rfl⟩

theorem mem_used_iff {levels : Nat} {document : Value} {feature : Feature} :
    feature ∈ used levels document ↔
      ∃ depth ≤ levels, ∃ v, document.Inside depth v ∧ feature ∈ ofNode v := by
  have hall : feature ∈ all := by cases feature <;> decide
  simp only [used, List.mem_filter, hall, true_and, List.contains_iff_mem, List.mem_flatMap]
  constructor
  · rintro ⟨node, hnode, hfeature⟩
    obtain ⟨depth, hdepth, hinside⟩ := Value.exists_node_iff.1 ⟨node, hnode, rfl⟩
    exact ⟨depth, hdepth, node.value, hinside, hfeature⟩
  · rintro ⟨depth, hdepth, v, hinside, hfeature⟩
    obtain ⟨node, hnode, rfl⟩ := Value.exists_node_iff.2 ⟨depth, hdepth, hinside⟩
    exact ⟨node, hnode, hfeature⟩

/-- A step of an extended kind shows the feature of its kind. -/
theorem mem_ofNode_of_kind {step : Step} {v : Value} (hstep : v.step? = some step) {feature : Feature}
    (hkind : step.kind ∈ Step.extendedKinds) (hfeature : ofKeyword? step.kind.name = some feature) :
    feature ∈ ofNode v := by
  obtain ⟨w, hget⟩ := Option.isSome_iff_exists.1 (Step.has_of_kind rfl hkind)
  obtain ⟨key, htext, hmem⟩ := Fields.exists_mem_of_get? hget
  have hfields : v.fields? = some step := hstep
  have hfound : feature ∈ (v.fields?.getD []).filterMap fun e => e.1.text?.bind ofKeyword? := by
    rw [hfields, Option.getD_some]
    exact List.mem_filterMap.2 ⟨(key, w), hmem, by rw [htext, Option.bind_some, hfeature]⟩
  rw [ofNode]
  · exact hfound
  · rintro s rfl
    cases hfields

end Feature

namespace Flow

/-- How deep the steps lie that a walk visits, by the depth of the list it starts in. -/
theorem inside_of_mem_steps {document list : Value} {flow : Flow} (hitems : list.items? = some flow)
    {above : Nat} (hlist : document.Inside above list) {enters : Step → Bool} {levels : Nat} {step : Step}
    (hmem : step ∈ flow.steps enters levels) :
    ∃ depth, above + 1 ≤ depth ∧ depth + 4 ≤ above + 5 * levels ∧
      ∃ v : Value, v.step? = some step ∧ document.Inside depth v := by
  induction levels generalizing list flow above with
  | zero => cases hmem
  | succ levels ih =>
    obtain ⟨entry, hentry, hstep⟩ := List.mem_flatMap.1 hmem
    have hinside := hlist.trans (Value.inside_of_mem_items hitems hentry)
    cases hkind : entry.step? with
    | none => simp [hkind] at hstep
    | some owner =>
      rw [hkind, Option.elim_some, List.mem_cons] at hstep
      obtain rfl | hbelow := hstep
      · exact ⟨above + 1, Nat.le_refl _, by omega, entry, hkind, hinside⟩
      · by_cases henters : enters owner = true
        · rw [if_pos henters] at hbelow
          obtain ⟨child, hchild, hstep⟩ := List.mem_flatMap.1 hbelow
          obtain ⟨d, hlow, hhigh, below, hbelow, hd⟩ := Step.inside_of_mem_nestedFlows hkind hchild
          obtain ⟨depth, hle, hge, hv⟩ := ih hbelow (hinside.trans hd) hstep
          exact ⟨depth, by omega, by omega, hv⟩
        · rw [if_neg henters] at hbelow
          cases hbelow

/-- What a walk visits below an entry of a flow belongs to a step of an extended kind. -/
theorem exists_top_of_mem_steps {flow : Flow} {enters : Step → Bool} {levels : Nat} {step : Step}
    (hmem : step ∈ flow.steps enters levels) (hkind : step.kind ∈ Step.extendedKinds) :
    ∃ entry ∈ flow, ∃ top, entry.step? = some top ∧ top.kind ∈ Step.extendedKinds := by
  cases levels with
  | zero => cases hmem
  | succ levels =>
    obtain ⟨entry, hentry, hstep⟩ := List.mem_flatMap.1 hmem
    cases htop : entry.step? with
    | none => simp [htop] at hstep
    | some top =>
      rw [htop, Option.elim_some, List.mem_cons] at hstep
      refine ⟨entry, hentry, top, htop, ?_⟩
      obtain rfl | hbelow := hstep
      · exact hkind
      · by_cases henters : enters top = true
        · rw [if_pos henters] at hbelow
          obtain ⟨child, hchild, -⟩ := List.mem_flatMap.1 hbelow
          exact Step.kind_mem_of_nestedFlows hchild
        · rw [if_neg henters] at hbelow
          cases hbelow

end Flow

namespace Value

/-- A step that is visited belongs to the flow of a task, whose list lies three levels below the document. -/
theorem exists_task_of_visit {document : Value} {enters : Step → Bool} {levels : Nat} {visit : Walk.Visit}
    (hvisit : visit ∈ Walk.visits (document.walkTasks enters levels)) :
    ∃ list : Value, ∃ flow : Flow, list.items? = some flow ∧ document.Inside 3 list ∧
      visit.step ∈ flow.steps enters levels := by
  rw [walkTasks_eq, Flow.visits_flatMap] at hvisit
  obtain ⟨⟨task, i⟩, htask, hvisit⟩ := List.mem_flatMap.1 hvisit
  have hmem : task ∈ (document.field "tasks").items := List.fst_mem_of_mem_zipIdx htask
  cases hitems : (document.field "tasks").items? with
  | none => simp [items, hitems] at hmem
  | some tasks =>
    rw [items, hitems, Option.getD_some] at hmem
    cases hflow : task.taskFlow? with
    | none => simp [hflow, Walk.visits] at hvisit
    | some flow =>
      simp only [hflow] at hvisit
      obtain ⟨es, hfields, hes⟩ := Option.bind_eq_some_iff.1 hflow
      obtain ⟨list, hlist, hbelow⟩ := inside_of_fieldsFlow hfields hes
      have htasks : document.Inside 2 task :=
        (inside_field (isNull_of_items? hitems)).trans (inside_of_mem_items hitems hmem)
      refine ⟨list, flow, hlist, htasks.trans hbelow, ?_⟩
      rw [← Flow.visits_walk enters levels flow (taskFlowPath i)]
      exact List.mem_map_of_mem hvisit

/-- A document in which a step is visited is a mapping. -/
theorem exists_fields_of_visit {document : Value} {enters : Step → Bool} {levels : Nat} {visit : Walk.Visit}
    (hvisit : visit ∈ Walk.visits (document.walkTasks enters levels)) : ∃ es, document.fields? = some es := by
  cases hfields : document.fields? with
  | some es => exact ⟨es, rfl⟩
  | none => simp [walkTasks_eq, field, hfields, items, items?, Walk.visits] at hvisit

/-- Only the entries of a mapping matter to its nodes. -/
theorem checkNodes_map {document : Value} {es : Fields} (hfields : document.fields? = some es) (levels : Nat) :
    (Value.map es).checkNodes levels = document.checkNodes levels := by
  cases levels with
  | zero => rfl
  | succ levels =>
    have hagain : document.isAgain = false := by cases document <;> first | rfl | cases hfields
    simp only [checkNodes, checkKeys, children, hfields, hagain]
    rfl

end Value

namespace Feature

theorem ofNode_map {v : Value} {es : Fields} (hfields : v.fields? = some es) : ofNode (.map es) = ofNode v := by
  have htext : ∀ s, v = .text s → False := by
    rintro s rfl
    cases hfields
  rw [ofNode.eq_def v]
  split
  · exact absurd rfl (htext _)
  · rw [hfields]
    rfl

theorem used_map {document : Value} {es : Fields} (hfields : document.fields? = some es) (levels : Nat) :
    used levels (.map es) = used levels document := by
  cases levels with
  | zero => simp only [used, Value.nodes, List.flatMap_singleton, ofNode_map hfields]
  | succ levels =>
    simp only [used, Value.nodes, List.flatMap_cons, ofNode_map hfields, Value.children, hfields]
    rfl

end Feature

namespace Detection

section Undeclared

variable {document : Value} {es : Fields} (hfields : document.fields? = some es) {settings : Settings}
  {levels : Nat} (hlevels : settings.walkLevels = .ok levels) (hengine : (document.field "engine").isNull = true)

include hfields hlevels hengine

/-- Without a declared engine, the features of a document say how it is run. -/
theorem ofDocument_eq :
    ofDocument settings document =
      (document.checkNodes levels).map fun _ => ofFeatures (Feature.used levels document) [] := by
  have hdeclared : (es.get "engine").isNull = true := by simpa [Value.field, hfields] using hengine
  simp only [ofDocument, hfields, hlevels]
  change ofFields levels es = _
  rw [ofFields, Feature.detect, Value.checkNodes_map hfields, Feature.used_map hfields]
  cases document.checkNodes levels with
  | error f => rfl
  | ok u =>
    change (if (es.get "engine").isNull = true then pure (ofFeatures (Feature.used levels document) []) else _) = _
    rw [if_pos hdeclared]
    rfl

theorem ofDocument_of_used (hused : Feature.used levels document ≠ []) :
    ofDocument settings document =
      (document.checkNodes levels).map fun _ => ⟨.extended, Feature.used levels document, true, []⟩ := by
  have hempty : (Feature.used levels document).isEmpty = false := List.isEmpty_eq_false_iff.2 hused
  rw [ofDocument_eq hfields hlevels hengine, ofFeatures, hempty]
  rfl

end Undeclared

end Detection

/-- Every step of an extended kind that a walk visits lies between the fourth level below the document
and the last but one of five times the levels of the walk. Detection finds its feature if it comes as
deep as the step lies. With four levels or more and no declared engine, the document has to be compiled. -/
theorem walked_feature_detected {document : Value} {levels : Nat} {visit : Walk.Visit}
    (hvisit : visit ∈ Walk.visits (document.walkTasks (fun _ => true) levels))
    (hkind : visit.step.kind ∈ Step.extendedKinds) :
    ∃ feature depth, Feature.ofKeyword? visit.step.kind.name = some feature ∧
      (4 ≤ depth ∧ depth + 1 ≤ 5 * levels) ∧
      (∃ v : Value, v.step? = some visit.step ∧ document.Inside depth v) ∧
      (∀ scanned, depth ≤ scanned → feature ∈ Feature.used scanned document) ∧
      ∀ settings : Settings, settings.walkLevels = .ok levels → 4 ≤ levels →
        (document.field "engine").isNull = true →
        (document.HasPaths levels → Detection.ofDocument settings document =
          .ok ⟨.extended, Feature.used levels document, true, []⟩) ∧
        (¬ document.HasPaths levels → ∃ fault, Detection.ofDocument settings document = .error fault) := by
  obtain ⟨list, flow, hitems, hlist, hstep⟩ := Value.exists_task_of_visit hvisit
  obtain ⟨feature, hfeature⟩ := Feature.exists_ofKeyword? hkind
  obtain ⟨depth, hlow, hhigh, v, hv, hinside⟩ := Flow.inside_of_mem_steps hitems hlist hstep
  have hseen (scanned : Nat) (hscanned : depth ≤ scanned) : feature ∈ Feature.used scanned document :=
    Feature.mem_used_iff.2 ⟨depth, hscanned, v, hinside, Feature.mem_ofNode_of_kind hv hkind hfeature⟩
  refine ⟨feature, depth, hfeature, ⟨by omega, by omega⟩, ⟨v, hv, hinside⟩, hseen, ?_⟩
  intro settings hlevels hfour hengine
  -- the step of the task that the visited one belongs to is seen at the fourth level
  have hused : Feature.used levels document ≠ [] := by
    obtain ⟨entry, hentry, top, htop, hextended⟩ := Flow.exists_top_of_mem_steps hstep hkind
    obtain ⟨shown, hshown⟩ := Feature.exists_ofKeyword? hextended
    have hentry : document.Inside 4 entry := hlist.trans (Value.inside_of_mem_items hitems hentry)
    have hmem : shown ∈ Feature.used levels document :=
      Feature.mem_used_iff.2 ⟨4, hfour, entry, hentry, Feature.mem_ofNode_of_kind htop hextended hshown⟩
    exact List.ne_nil_of_mem hmem
  obtain ⟨es, hfields⟩ := Value.exists_fields_of_visit hvisit
  rw [Detection.ofDocument_of_used hfields hlevels hengine hused, ← Value.checkNodes_eq_ok_iff]
  cases hnodes : document.checkNodes levels with
  | error f => exact ⟨fun h => (nomatch h), fun _ => ⟨f, rfl⟩⟩
  | ok u => exact ⟨fun _ => rfl, fun h => absurd rfl h⟩

/-- A flow inside a number of conditionals. -/
def insideConditionals : Nat → Flow → Flow
  | 0, flow => flow
  | n + 1, flow => [.map [(.text "logic", .map [(.text "then", .list (insideConditionals n flow))])]]

def callStep : Step := [(.text "external_call", .map [(.text "type", .text "shell")])]

/-- A document with a call inside a number of conditionals. -/
def callDocument (n : Nat) : Value := .map (oneTask (insideConditionals n [.map callStep]))

/-- A call inside two conditionals lies ten levels below the document, within the fifty of a scan. -/
theorem nestedCall_feature_detected :
    ∃ visit ∈ Walk.visits ((callDocument 2).walkTasks (fun _ => true) 50), visit.step = callStep ∧
      callStep.kind ∈ Step.extendedKinds ∧
      (∃ feature depth, Feature.ofKeyword? callStep.kind.name = some feature ∧
        (4 ≤ depth ∧ depth + 1 ≤ 5 * 50) ∧
        ∀ scanned, depth ≤ scanned → feature ∈ Feature.used scanned (callDocument 2)) ∧
      Detection.ofDocument {} (callDocument 2) = .ok ⟨.extended, [.logic, .call], true, []⟩ := by
  have hvisit : ((Walk.visits ((callDocument 2).walkTasks (fun _ => true) 50))[2]?).map (·.step) = some callStep :=
    rfl
  obtain ⟨visit, hget, hstep⟩ := Option.map_eq_some_iff.1 hvisit
  have hmem := List.mem_of_getElem? hget
  have hkind : callStep.kind ∈ Step.extendedKinds := by decide
  obtain ⟨feature, depth, hfeature, hdepth, -, hused, hmode⟩ :=
    walked_feature_detected hmem (by rw [hstep]; exact hkind)
  have hpaths : (callDocument 2).HasPaths 50 := Value.checkNodes_eq_ok_iff.1 rfl
  have hall : Feature.used 50 (callDocument 2) = [.logic, .call] := by decide +kernel
  rw [hstep] at hfeature
  refine ⟨visit, hmem, hstep, hkind, ⟨feature, depth, hfeature, hdepth, hused⟩, ?_⟩
  rw [← hall]
  exact (hmode {} rfl (by decide) rfl).1 hpaths

/-- A walk of fifty levels visits a call inside sixteen conditionals, and a scan of fifty levels does not
come to it. With three levels a walk visits the steps of a task, and a scan none of them. -/
theorem deepCall_not_detected :
    (∃ visit ∈ Walk.visits ((callDocument 16).walkTasks (fun _ => true) 50), visit.step.kind = .call) ∧
      Feature.used 50 (callDocument 16) = [.logic] ∧
      (∃ visit ∈ Walk.visits ((callDocument 0).walkTasks (fun _ => true) 3), visit.step.kind = .call) ∧
      Detection.ofDocument { maxWalkDepth := 3 } (callDocument 0) = .ok ⟨.native, [], false, []⟩ := by
  have hused : Feature.used 3 (callDocument 0) = [] := by decide +kernel
  refine ⟨by decide +kernel, by decide +kernel, by decide +kernel, ?_⟩
  have hfields : (callDocument 0).fields? = some (oneTask [.map callStep]) := rfl
  have hmode := Detection.ofDocument_eq hfields
    (show Settings.walkLevels { maxWalkDepth := 3 } = .ok 3 from rfl) rfl
  rw [hmode, hused]
  rfl

end FlowScript
