import FlowScript.Proofs.Blame
import FlowScript.Validation

/-!
# What stops a validation

A validation reports what is wrong with a document and goes on. It is stopped by a task list that is a scalar, by
a transform that names its operation by a collection, by an imported file that cannot be turned into a
document, and by a report that would show a setting which cannot be written. The main statement says that nothing
else stops it, and that each of these does.
-/
namespace FlowScript

open Construct

variable {F : Fault → Prop}

/-! ## Values with short integers -/

namespace Value

/-- An integer can be written. -/
def isShort : Value → Bool
  | .int n => Number.isWritable n
  | _ => true

theorem isShort_int (n : Int) : isShort (.int n) = Number.isWritable n := rfl

variable {v : Value}

theorem isWritable_of_short (h : v.everywhere isShort = true) : v.isWritable = true :=
  isWritable_of_everywhere (fun n hn => (isShort_int n).symm.trans hn) v h

theorem shown_answers_of_short (h : v.everywhere isShort = true) : Answers F (fun _ => True) v.shown :=
  shown_answers_of_writable (isWritable_of_short h)

/-- A value that contains itself is unrolled to a number of levels at least. -/
def IsUnrolled (levels : Nat) (v : Value) : Prop := ∀ depth < levels, ∀ w, v.Inside depth w → w.isAgain = false

theorem keys_isWritable {es : Fields} (h : v.everywhere isShort = true) (hfields : v.fields? = some es) :
    ∀ e ∈ es, e.1.isWritable = true :=
  fun _ he => isWritable_of_short (everywhere_entry (everywhere_fields h hfields) he).1

theorem checkNodes_of_unrolled {levels : Nat} (h : v.everywhere isShort = true) (hunrolled : v.IsUnrolled levels) :
    v.checkNodes levels = .ok () := by
  refine checkNodes_eq_ok_iff.mpr fun depth hdepth w hw => ⟨hunrolled depth hdepth w hw, ?_⟩
  cases hfields : w.fields? with
  | none => exact List.forall_mem_nil _
  | some es => exact keys_isWritable (everywhere_inside h hw) hfields

end Value

theorem Limit.isReachedBy_answers {limit : Limit} (h : limit.isNumber = true) (v : Value) :
    Answers F (fun _ => True) (limit.isReachedBy v) := by
  obtain ⟨given⟩ := limit
  cases given with
  | int | bool | float => exact .ok trivial
  | _ => cases h

theorem Limit.exists_most {limit : Limit} (h : limit.isNumber = true) : ∃ n, limit.most = .ok n := by
  have hanswers : Answers (fun _ => False) (fun _ => True) limit.most :=
    rounded_answers (fun hno => by cases h.symm.trans hno) _
  cases hmost : limit.most with
  | ok n => exact ⟨n, rfl⟩
  | error f => exact (hanswers.fault hmost).elim

/-- A traversal is stopped by the first entry that stops it. -/
theorem Answers.mapM_findSome {α β : Type} {g : α → Except Fault β} {stop : α → Option Fault} {xs : List α}
    (h : ∀ x ∈ xs, Answers (stop x = some ·) (fun _ => stop x = none) (g x)) :
    Answers (xs.findSome? stop = some ·) (fun _ => xs.findSome? stop = none) (xs.mapM g) := by
  induction xs with
  | nil => exact .ok rfl
  | cons x rest ih =>
    have hx := h x List.mem_cons_self
    have hrest := ih fun y hy => h y (List.mem_cons_of_mem _ hy)
    rw [List.mapM_cons]
    cases hg : g x with
    | error f => exact .error (by rw [List.findSome?_cons, hx.fault hg])
    | ok y =>
      simp only [List.findSome?_cons, hx.result hg]
      refine .bind (P := fun _ => True) (.ok trivial) fun _ _ => ?_
      exact .bind hrest fun _ hnone => .pure hnone

/-! ## Single steps -/

/-- A transform names its operation by a collection. -/
def Step.isUncheckable (step : Step) : Bool :=
  step.kind == .transform && !((step.get "data_transform").field "operation").isHashable

/-- The check of a loop has to show a setting that cannot be written. -/
def Step.showsUnwritable (settings : Settings) (step : Step) : Bool :=
  step.lacksBound settings || step.passesUnwritable settings

/-- What the check of a step is stopped by. -/
def Step.stop? (settings : Settings) (step : Step) : Option Fault :=
  if step.isUncheckable then some .operationNotHashable
  else if step.showsUnwritable settings then some .integerTooLong
  else none

/-- What the check of an event is stopped by. A limit of the walk is reported with the setting itself. -/
def Walk.Event.stop? (settings : Settings) : Walk.Event → Option Fault
  | .visit step _ => step.stop? settings
  | .limit _ => if settings.maxWalkDepth.given.isWritable then none else some .integerTooLong

namespace Validation

section Steps

variable {settings : Settings} {step : Step} {path : String}

theorem wheneverShown_answers {v : Value} (h : v.everywhere Value.isShort = true) (condition : Bool)
    (d : String → Diagnostic) : Answers F (fun _ => True) (wheneverShown condition v d) := by
  unfold wheneverShown
  split_ifs
  · exact .bind (Value.shown_answers_of_short h) fun _ _ => .pure trivial
  · exact .pure trivial

theorem field_short {es : Fields} (h : (Value.map es).everywhere Value.isShort = true) (name : String) :
    (es.get name).everywhere Value.isShort = true :=
  Value.everywhere_get rfl h name

theorem firstOf_short {es : Fields} (h : (Value.map es).everywhere Value.isShort = true) (names : List String) :
    (es.firstOf names).everywhere Value.isShort = true := by
  unfold Fields.firstOf
  induction names with
  | nil => exact Value.everywhere_null _
  | cons name names ih =>
    rw [Fields.firstOf?]
    split_ifs
    · exact ih
    · exact field_short h name

theorem stop?_of_loop (hkind : step.kind = .loop) :
    step.stop? settings = if step.showsUnwritable settings then some .integerTooLong else none := by
  simp [Step.stop?, Step.isUncheckable, hkind]

theorem stop?_of_transform (hkind : step.kind = .transform) :
    step.stop? settings = if step.isUncheckable then some .operationNotHashable else none := by
  simp [Step.stop?, Step.showsUnwritable, Step.lacksBound, Step.passesUnwritable, hkind]

theorem stop?_of_other (hloop : step.kind ≠ .loop) (htransform : step.kind ≠ .transform) :
    step.stop? settings = none := by
  simp [Step.stop?, Step.isUncheckable, Step.showsUnwritable, Step.lacksBound, Step.passesUnwritable, hloop,
    htransform]

/-- The check of a loop with short integers is stopped exactly by a setting. -/
theorem checkLoop_answers (hkind : step.kind = .loop) (hlimit : settings.maxRepeatCount.isNumber = true)
    (h : (Value.map step).everywhere Value.isShort = true) :
    Answers (step.stop? settings = some ·) (fun _ => step.stop? settings = none) (checkLoop settings step path) := by
  obtain ⟨n, hn⟩ := Limit.exists_most hlimit
  rw [stop?_of_loop hkind, Step.showsUnwritable, Step.lacksBound, Step.passesUnwritable, hkind, Loop.read?]
  unfold checkLoop
  cases hfields : (step.get "loop").fields? with
  | none => exact .pure rfl
  | some loop =>
    have hshort := Value.everywhere_fields (field_short h "loop") hfields
    obtain ⟨found, hfound⟩ := @checkLoopKind_answer settings (path ++ "/loop") (Loop.ofFields loop) n hn
      (Value.isWritable_of_short (firstOf_short hshort _)) (Value.isWritable_of_short (firstOf_short hshort _))
    simp only [hfound, beq_self_eq_true, Bool.true_and, Option.map_some, Option.any_some]
    split_ifs
    · exact .error rfl
    · exact .ok rfl

theorem checkCall_answers (h : (Value.map step).everywhere Value.isShort = true) :
    Answers F (fun _ => True) (checkCall step path) := by
  unfold checkCall
  dsimp only
  split
  · exact .ok trivial
  · rename_i call hcall
    have hshort := Value.everywhere_fields (field_short h "external_call") hcall
    split
    · exact .ok trivial
    · have hmethod : Answers F (fun _ => True) (checkMethod (call.get "method") (path ++ "/external_call")) := by
        unfold checkMethod
        split_ifs
        · exact .pure trivial
        · exact .bind (Value.shown_answers_of_short (field_short hshort _)) fun _ _ => .pure trivial
      exact .bind hmethod fun _ _ => .pure trivial
    · exact .ok trivial
    · rename_i hother _ _ _
      exact wheneverShown_answers (field_short hshort "type") _ _

/-- The field of a transform that names its operation. -/
theorem field_operation {transform : Fields} (h : (step.get "data_transform").fields? = some transform) :
    (step.get "data_transform").field "operation" = transform.get "operation" := by
  rw [Value.field, h]

theorem isUncheckable_eq {transform : Fields} (hkind : step.kind = .transform)
    (h : (step.get "data_transform").fields? = some transform) :
    step.isUncheckable = !(transform.get "operation").isHashable := by
  rw [Step.isUncheckable, hkind, field_operation h]
  exact Bool.true_and _

theorem checkFlatOperation_answers {operation : Value} (path : String) (h : operation.everywhere Value.isShort = true) :
    Answers (fun f => f = .operationNotHashable ∧ operation.isHashable = false)
      (fun _ => operation.isHashable = true) (checkFlatOperation operation path) := by
  unfold checkFlatOperation
  dsimp only
  split
  · exact .ok rfl
  · exact .ok rfl
  · split_ifs with hhash
    · exact ⟨fun _ _ => hhash, (wheneverShown_answers h _ _).fault⟩
    · exact .error ⟨rfl, by simpa using hhash⟩

/-- The check of a transform with short integers is stopped exactly by its operation. -/
theorem checkTransform_answers (hkind : step.kind = .transform)
    (h : (Value.map step).everywhere Value.isShort = true) :
    Answers (step.stop? settings = some ·) (fun _ => step.stop? settings = none) (checkTransform step path) := by
  rw [stop?_of_transform hkind]
  unfold checkTransform
  cases htransform : (step.get "data_transform").fields? with
  | none =>
    have hfine : step.isUncheckable = false := by
      rw [Step.isUncheckable, Value.field, htransform]
      simp [Value.isHashable]
    rw [hfine]
    exact .pure rfl
  | some transform =>
    have hshort := field_short (Value.everywhere_fields (field_short h _) htransform) "operation"
    rw [isUncheckable_eq hkind htransform]
    have hflat := checkFlatOperation_answers (path ++ "/data_transform") hshort
    refine .bind (P := fun _ => (transform.get "operation").isHashable = true) ⟨hflat.result, fun f hf => ?_⟩ ?_
    · obtain ⟨rfl, hhash⟩ := hflat.fault hf
      simp [hhash]
    · intro found hhash
      exact .pure (by simp [hhash])

/-- The check of a step with short integers is stopped exactly by the operation of a transform, and by a setting
that a loop is reported with. -/
theorem checkStep_answers (hlimit : settings.maxRepeatCount.isNumber = true)
    (h : (Value.map step).everywhere Value.isShort = true) :
    Answers (step.stop? settings = some ·) (fun _ => step.stop? settings = none) (checkStep settings step path) := by
  unfold checkStep
  split
  case h_3 hkind => exact checkLoop_answers hkind hlimit h
  case h_5 hkind => exact checkTransform_answers hkind h
  case h_7 hkind =>
    have hnone := @stop?_of_other settings step (by simp [hkind]) (by simp [hkind])
    exact ⟨fun _ _ => hnone, (checkCall_answers h).fault⟩
  case h_11 hkind =>
    have hnone := @stop?_of_other settings step (by simp [hkind]) (by simp [hkind])
    have hkeys : ∀ e ∈ step, Answers (step.stop? settings = some ·) (fun _ => True) e.1.shown :=
      fun e he => Value.shown_answers_of_short (Value.everywhere_entry h he).1
    refine .bind (P := fun _ => True) ?_ fun _ _ => .pure hnone
    exact .bind (.mapM hkeys) fun _ _ => .pure trivial
  all_goals
    rename_i hkind
    exact .ok (stop?_of_other (by simp [hkind]) (by simp [hkind]))

theorem checkEvent_answers (hlimit : settings.maxRepeatCount.isNumber = true) {event : Walk.Event}
    (h : ∀ step path, event = .visit step path → (Value.map step).everywhere Value.isShort = true) :
    Answers (event.stop? settings = some ·) (fun _ => event.stop? settings = none) (checkEvent settings event) := by
  cases event with
  | visit step path => exact checkStep_answers hlimit (h step path rfl)
  | limit path =>
    rw [checkEvent_limit, Walk.Event.stop?]
    split_ifs
    · exact .ok rfl
    · exact .error rfl

/-- The names that a step with short integers binds cannot be told only because of the operation of a
transform. -/
theorem boundValues_answers (h : (Value.map step).everywhere Value.isShort = true)
    (hop : step.isUncheckable = true → F .operationNotHashable) : Answers F (fun _ => True) step.boundValues := by
  unfold Step.boundValues
  split
  case h_4 =>
    refine .bind (.option (Q := fun _ => True) fun call hcall => ?_) fun _ _ => .pure trivial
    have hshort := field_short (Value.everywhere_fields (field_short h _) hcall) "method"
    refine .bind (Value.shown_answers_of_short ?_) fun _ _ => .pure trivial
    unfold Value.orElse
    split_ifs
    · exact hshort
    · rw [Value.everywhere] <;> simp [Value.isShort]
  case h_5 hkind =>
    refine .bind (.option (Q := fun _ => True) fun transform htransform => ?_) fun _ _ => .pure trivial
    refine .bind (P := fun _ => True) ?_ fun _ _ => .pure trivial
    unfold Transform.flatParts
    split
    · exact .ok trivial
    · split
      · exact .ok trivial
      · exact .ok trivial
    · split_ifs with hhash
      · exact .ok trivial
      · exact .error (hop ((isUncheckable_eq hkind htransform).trans (by simpa using hhash)))
  all_goals exact .ok trivial

/-- The names that a step binds can be told only if its operation can be looked up. -/
theorem not_isUncheckable_of_boundValues {values : List Value} (h : step.boundValues = .ok values) :
    step.isUncheckable = false := by
  rw [← Bool.not_eq_true]
  intro hun
  have hkind : step.kind = .transform := by
    rw [Step.isUncheckable, Bool.and_eq_true] at hun
    exact beq_iff_eq.mp hun.1
  cases htransform : (step.get "data_transform").fields? with
  | none =>
    rw [Step.isUncheckable, Value.field, htransform] at hun
    simp [Value.isHashable] at hun
  | some transform =>
    have hhash : (transform.get "operation").isHashable = false := by
      simpa [isUncheckable_eq hkind htransform] using hun
    have hflat : Transform.flatParts transform = .error .operationNotHashable := by
      unfold Transform.flatParts
      split
      · rename_i hop
        rw [hop] at hhash
        cases hhash
      · rename_i hop
        rw [hop] at hhash
        cases hhash
      · rw [if_neg (by simp [hhash])]
    rw [Step.boundValues, hkind] at h
    simp only [Transform.read?, htransform, Option.mapM_some, Transform.ofFields, hflat] at h
    cases h

end Steps

/-! ## Documents -/

section Documents

variable {settings : Settings} {document : Fields} {levels : Nat}

/-- A value that counts as present but cannot be gone through. -/
def isFilledScalar : Value → Bool
  | .bool b => b
  | .int n => n != 0
  | .float x _ => x != 0
  | .date _ => true
  | .timestamp _ => true
  | _ => false

theorem taskValues_eq : taskValues document =
    if isFilledScalar (document.get "tasks") then .error .tasksNotIterable else .ok (document.get "tasks").items := by
  unfold taskValues
  cases document.get "tasks" with
  | bool b => cases b <;> rfl
  | int n =>
    by_cases hn : n = 0
    · simp [hn, isFilledScalar, Value.items, Value.items?]
    · simp [hn, isFilledScalar]
  | float x =>
    cases hx : x == 0
    · simp [hx, isFilledScalar, bne]
    · simp [hx, isFilledScalar, bne, Value.items, Value.items?]
  | _ => rfl

/-- The walk comes to a transform that names its operation by a collection. -/
def HasUncheckable (levels : Nat) (document : Value) : Prop :=
  ∃ visit ∈ Walk.visits (document.walkTasks (fun _ => true) levels), visit.step.isUncheckable = true

theorem mem_visits_walkTasks_iff (document : Value) {step : Step} :
    (∃ visit ∈ Walk.visits (document.walkTasks (fun _ => true) levels), visit.step = step) ↔
      ∃ flow ∈ (document.field "tasks").items.filterMap Value.taskFlow?,
        step ∈ flow.steps (fun _ => true) levels := by
  rw [Value.walkTasks_eq, Flow.visits_flatMap]
  constructor
  · rintro ⟨visit, hvisit, rfl⟩
    obtain ⟨⟨task, i⟩, htask, hvisit⟩ := List.mem_flatMap.mp hvisit
    dsimp only at hvisit
    split at hvisit
    · rename_i flow hflow
      refine ⟨flow, List.mem_filterMap.mpr ⟨task, List.fst_mem_of_mem_zipIdx htask, hflow⟩, ?_⟩
      rw [← Flow.visits_walk _ _ _ (taskFlowPath i)]
      exact List.mem_map_of_mem hvisit
    · cases hvisit
  · rintro ⟨flow, hflow, hstep⟩
    obtain ⟨task, htask, hflow⟩ := List.mem_filterMap.mp hflow
    obtain ⟨i, hi⟩ := List.mem_iff_getElem?.mp htask
    rw [← Flow.visits_walk _ _ _ (taskFlowPath i)] at hstep
    obtain ⟨visit, hvisit, rfl⟩ := List.mem_map.mp hstep
    refine ⟨visit, List.mem_flatMap.mpr ⟨(task, i), List.mk_mem_zipIdx_iff_getElem?.mpr hi, ?_⟩, rfl⟩
    dsimp only
    rw [hflow]
    exact hvisit

theorem walked_short {document : Value} (h : document.everywhere Value.isShort = true) {visit : Walk.Visit}
    (hvisit : visit ∈ Walk.visits (document.walkTasks (fun _ => true) levels)) :
    (Value.map visit.step).everywhere Value.isShort = true := by
  obtain ⟨list, flow, hitems, hlist, hstep⟩ := Value.exists_task_of_visit hvisit
  obtain ⟨depth, -, -, v, hv, hinside⟩ := Flow.inside_of_mem_steps hitems hlist hstep
  exact Value.everywhere_fields (Value.everywhere_inside h hinside) hv

theorem spelled_answers {v : Value} (h : v.isWritable = true) : Answers F (fun _ => True) (Mode.spelled? v) :=
  .bind (Value.shown_answers_of_writable h) fun _ _ => .pure trivial

theorem checkSkeleton_answers (h : (Value.map document).everywhere Value.isShort = true) :
    Answers F (fun _ => True) (checkSkeleton document) := by
  have hengine : Answers F (fun _ => True) (checkEngine document) := by
    refine .bind (spelled_answers (Value.isWritable_of_short (field_short h "engine"))) fun _ _ => ?_
    split_ifs
    · exact .pure trivial
    · exact .pure trivial
  have hblock (key : String) : Answers F (fun _ => True) (checkPlatformBlock key (document.get key)) := by
    unfold checkPlatformBlock
    split
    · rename_i es hes
      have hkeys : ∀ e ∈ es.filter fun e => !(platformFields key).any e.1.isTextOf,
          Answers F (fun _ => True) (unknownField key e.1) := by
        intro e he
        have hfields := Value.everywhere_fields (field_short h key) hes
        have hentry := Value.everywhere_entry hfields (List.mem_filter.mp he).1
        exact .bind (Value.shown_answers_of_short hentry.1) fun _ _ => .pure trivial
      exact ⟨fun _ _ => trivial, (Answers.mapM hkeys).fault⟩
    · exact .ok trivial
  have hplatform : Answers F (fun _ => True) (checkPlatform document) := by
    unfold checkPlatform
    dsimp only
    split
    · exact .pure trivial
    · exact .bind (.mapM fun key _ => hblock key) fun _ _ => .pure trivial
  exact .bind hengine fun _ _ => .bind hplatform fun _ _ => .pure trivial

theorem detection_answers (h : (Value.map document).everywhere Value.isShort = true)
    (hunrolled : (Value.map document).IsUnrolled levels) :
    Answers F (fun _ => True) (Detection.ofFields levels document) := by
  have hdetect : Answers F (fun _ => True) (Feature.detect levels (.map document)) := by
    rw [Feature.detect, Value.checkNodes_of_unrolled h hunrolled]
    exact .ok trivial
  refine .bind hdetect fun features _ => ?_
  dsimp only
  split_ifs
  · exact .pure trivial
  · refine .bind (spelled_answers (Value.isWritable_of_short (field_short h "engine"))) fun mode _ => ?_
    cases mode with
    | some mode => exact .pure trivial
    | none => exact .pure trivial

theorem chooseMode_answers {choice : ModeChoice} (h : ∀ name, choice = .spelled name → name.isWritable = true)
    (detected : Mode) : Answers F (fun _ => True) (chooseMode choice detected) := by
  unfold chooseMode
  split
  · exact .pure trivial
  · exact .pure trivial
  · rename_i name
    refine .bind (spelled_answers (h name rfl)) fun mode _ => ?_
    cases mode with
    | some mode => exact .pure trivial
    | none => exact .pure trivial

theorem walkLevels_answers (hlevels : settings.walkLevels = .ok levels) :
    Answers F (· = levels) settings.walkLevels := by
  rw [hlevels]
  exact .ok rfl

theorem checkNative_answers {document : Value} (hlevels : settings.walkLevels = .ok levels)
    (h : document.everywhere Value.isShort = true) (hunrolled : document.IsUnrolled levels) :
    Answers F (fun _ => True) (checkNative settings document) := by
  have hkeys : document.checkAllKeys levels = .ok () := by
    rw [Value.checkAllKeys, Value.checkNodes_of_unrolled h hunrolled]
    refine Value.forM_eq_ok_iff.mpr fun node hnode => ?_
    obtain ⟨depth, -, hinside⟩ := Value.exists_node_iff.mp ⟨node, hnode, rfl⟩
    refine Value.forM_eq_ok_iff.mpr fun key hkey => ?_
    obtain ⟨e, he, rfl⟩ := List.mem_map.mp hkey
    cases hfields : node.value.fields? with
    | none => simp [hfields] at he
    | some es =>
      rw [hfields] at he
      rw [Value.checkWritable, if_pos (Value.keys_isWritable (Value.everywhere_inside h hinside) hfields e he)]
  refine .bind (walkLevels_answers hlevels) ?_
  rintro _ rfl
  rw [hkeys]
  exact .ok trivial

/-- What the checks of the constructs of a document are stopped by: the first event of the walk whose check is
stopped. -/
def constructStop? (settings : Settings) (levels : Nat) (document : Value) : Option Fault :=
  (document.walkTasks (fun _ => true) levels).findSome? (Walk.Event.stop? settings)

theorem checkExtended_answers {document : Value} (hlevels : settings.walkLevels = .ok levels)
    (hlimit : settings.maxRepeatCount.isNumber = true) (h : document.everywhere Value.isShort = true) :
    Answers (constructStop? settings levels document = some ·)
      (fun _ => constructStop? settings levels document = none) (checkExtended settings document) := by
  have hevents : ∀ event ∈ document.walkTasks (fun _ => true) levels,
      Answers (event.stop? settings = some ·) (fun _ => event.stop? settings = none) (checkEvent settings event) := by
    intro event hevent
    refine checkEvent_answers hlimit fun step path hvisit => ?_
    have hwalked : ⟨step, path⟩ ∈ Walk.visits (document.walkTasks (fun _ => true) levels) :=
      List.mem_filterMap.mpr ⟨_, hvisit ▸ hevent, rfl⟩
    exact walked_short h hwalked
  refine .bind (walkLevels_answers hlevels) ?_
  rintro _ rfl
  exact .bind (.mapM_findSome hevents) fun _ hnone => .pure hnone

theorem checkFeatures_answers (h : (Value.map document).everywhere Value.isShort = true) (used : List Feature) :
    Answers F (fun _ => True) (checkFeatures used document) := by
  unfold checkFeatures
  dsimp only
  split
  · rename_i declared hdeclared
    have hshown : ∀ numbered ∈ declared.zipIdx,
        Answers F (fun _ => True) (checkDeclared used numbered.1 numbered.2) := by
      intro numbered hnumbered
      have hlist := Value.everywhere_items (field_short h "features") hdeclared
      have hshort := Value.everywhere_mem hlist (List.fst_mem_of_mem_zipIdx hnumbered)
      unfold checkDeclared
      dsimp only
      split
      · exact .bind (Value.shown_answers_of_short hshort) fun _ _ => .pure trivial
      · split_ifs
        · exact .pure trivial
        · exact .pure trivial
    exact .bind (.mapM hshown) fun _ _ => .pure trivial
  · split_ifs
    · exact .pure trivial
    · exact .pure trivial

theorem definedNames_answers (hlevels : settings.walkLevels = .ok levels)
    (h : (Value.map document).everywhere Value.isShort = true)
    (htasks : isFilledScalar (document.get "tasks") = true → F .tasksNotIterable)
    (hop : HasUncheckable levels (.map document) → F .operationNotHashable) :
    Answers F (fun _ => True) (definedNames settings document) := by
  have hglobals : Answers F (fun _ => True) (globalNames document) := by
    have hkeys : ∀ e ∈ (document.get "variables").fields?.getD [], Answers F (fun _ => True) e.1.shown := by
      intro e he
      cases hfields : (document.get "variables").fields? with
      | none => simp [hfields] at he
      | some es =>
        rw [hfields] at he
        have hentry := Value.everywhere_entry (Value.everywhere_fields (field_short h "variables") hfields) he
        exact Value.shown_answers_of_short hentry.1
    exact ⟨fun _ _ => trivial, (Answers.mapM hkeys).fault⟩
  have htaskValues : Answers F (· = (document.get "tasks").items) (taskValues document) := by
    rw [taskValues_eq]
    split_ifs with hscalar
    · exact .error (htasks hscalar)
    · exact .ok rfl
  refine .bind hglobals fun globals _ => .bind htaskValues ?_
  rintro _ rfl
  have hflows : ∀ flow ∈ (document.get "tasks").items.filterMap Value.taskFlow?, Answers F (fun _ => True)
      (do flow.boundNames true (← settings.walkLevels)) := by
    intro flow hflow
    refine .bind (walkLevels_answers hlevels) fun read hread => ?_
    rw [hread]
    have hvisits : ∀ visit ∈ Walk.visits (flow.walk (fun _ => true) levels ""),
        Answers F (fun _ => True) (visit.step.bindings true) := by
      intro visit hvisit
      have hstep : visit.step ∈ flow.steps (fun _ => true) levels := by
        rw [← Flow.visits_walk _ _ _ ""]
        exact List.mem_map_of_mem hvisit
      obtain ⟨walked, hwalked, heq⟩ :=
        (mem_visits_walkTasks_iff (.map document)).mpr ⟨flow, hflow, hstep⟩
      rw [← heq]
      exact .bind (boundValues_answers (walked_short h hwalked) fun hun => hop ⟨walked, hwalked, hun⟩)
        fun _ _ => .pure trivial
    exact .bind (.mapM hvisits) fun _ _ => .pure trivial
  exact .bind (.mapM hflows) fun _ _ => .pure trivial

theorem checkReferences_answers (hlevels : settings.walkLevels = .ok levels)
    (h : (Value.map document).everywhere Value.isShort = true)
    (htasks : isFilledScalar (document.get "tasks") = true → F .tasksNotIterable)
    (hop : HasUncheckable levels (.map document) → F .operationNotHashable) :
    Answers F (fun _ => True) (checkReferences settings document) := by
  refine .bind (definedNames_answers hlevels h htasks hop) fun _ _ => ?_
  rw [hlevels]
  exact .ok trivial

/-- References are checked only if the tasks can be gone through and every operation can be looked up. -/
theorem checkable_of_checkReferences {found : List Diagnostic} (hlevels : settings.walkLevels = .ok levels)
    (h : checkReferences settings document = .ok found) :
    isFilledScalar (document.get "tasks") = false ∧ ¬ HasUncheckable levels (.map document) := by
  obtain ⟨defined, hdefined, -⟩ := bind_eq_ok.mp h
  obtain ⟨globals, -, hdefined⟩ := bind_eq_ok.mp hdefined
  obtain ⟨tasks, htasks, hdefined⟩ := bind_eq_ok.mp hdefined
  obtain ⟨bound, hbound, -⟩ := bind_eq_ok.mp hdefined
  rw [taskValues_eq] at htasks
  split_ifs at htasks with hscalar
  obtain rfl := Except.ok.inj htasks
  refine ⟨by simpa using hscalar, ?_⟩
  rintro ⟨visit, hvisit, hun⟩
  obtain ⟨flow, hflow, hstep⟩ := (mem_visits_walkTasks_iff (.map document)).mp ⟨visit, hvisit, rfl⟩
  obtain ⟨names, -, hnames⟩ := exists_result_of_mem hbound hflow
  rw [hlevels] at hnames
  obtain ⟨found, hfound, -⟩ := bind_eq_ok.mp (show flow.boundNames true levels = .ok names from hnames)
  rw [← Flow.visits_walk _ _ _ ""] at hstep
  obtain ⟨same, hsame, heq⟩ := List.mem_map.mp hstep
  obtain ⟨own, -, hown⟩ := exists_result_of_mem hfound hsame
  obtain ⟨values, hvalues, -⟩ := bind_eq_ok.mp hown
  rw [heq] at hvalues
  cases (not_isUncheckable_of_boundValues hvalues).symm.trans hun

end Documents

/-! ## Imported files -/

open File (Path Tree)

/-- A path cannot be looked up: it holds the character that ends names or one that the tree refuses, or it is too
long. -/
inductive PathFault (tree : Tree) : Fault → Prop
  | foreign {c : Char} : tree.refuses c = true → PathFault tree .foreignInPath
  | null : PathFault tree .nullInPath
  | long : PathFault tree .nameTooLong

/-- The text of a file has the form of a document, but no document can be built from it. -/
def isBuildFault : Fault → Bool
  | .unreadableScalar _ => true
  | .tooDeep => true
  | _ => false

/-- Why the imports of a document cannot be checked. -/
inductive ImportFault (tree : Tree) (settings : Settings) : Fault → Prop
  /-- A path cannot be looked up. -/
  | path {f : Fault} : PathFault tree f → ImportFault tree settings f
  /-- No document can be built from a file. -/
  | build {f : Fault} {target : Path} : isBuildFault f = true → isDocumentFile tree target = true →
      Source.load tree settings (.path target) = .error (.fault f) → ImportFault tree settings f
  /-- The limit that a chain of files reaches cannot be written. -/
  | depth : settings.maxImportDepth.given.isWritable = false → ImportFault tree settings .integerTooLong
  /-- The size that a file exceeds cannot be written. -/
  | size : settings.maxFileSize.given.isWritable = false → ImportFault tree settings .integerTooLong

section Imports

variable {tree : Tree} {settings : Settings}

theorem resolve_answers (hF : ∀ f, PathFault tree f → F f) (p : Path) :
    Answers F (fun _ => True) (tree.resolve p) := by
  unfold Tree.resolve
  dsimp only
  split_ifs with hforeign
  · obtain ⟨part, -, hpart⟩ := List.any_eq_true.mp hforeign
    obtain ⟨c, -, hc⟩ := List.any_eq_true.mp hpart
    exact .error (hF _ (.foreign hc))
  · exact .error (hF _ .null)
  · exact .ok trivial

theorem has_answers (hF : ∀ f, PathFault tree f → F f) (p : Path) :
    Answers F (fun _ => True) (tree.has p) := by
  unfold Tree.has
  split
  · exact .ok trivial
  · exact .error (hF _ .long)
  · exact .ok trivial

theorem sizeObstacle?_answers (hlimit : settings.maxFileSize.isNumber = true)
    (hF : settings.maxFileSize.given.isWritable = false → F .integerTooLong) (size : Nat) :
    Answers F (fun _ => True) (Source.sizeObstacle? settings size) := by
  refine .bind (Limit.isPassedBy_answers (fun hno => by cases hlimit.symm.trans hno) _) fun _ _ => ?_
  split_ifs
  · exact .bind (Value.shown_answers hF) fun _ _ => .pure trivial
  · exact .pure trivial

/-- A file is read, or it is too large for a limit that cannot be written. -/
theorem readFile_answers (hlimit : settings.maxFileSize.isNumber = true)
    (hF : settings.maxFileSize.given.isWritable = false → F .integerTooLong) (p : Path) :
    Answers F (fun _ => True) (Source.readFile tree settings p) := by
  unfold Source.readFile
  split
  · exact .pure trivial
  · refine .bind (sizeObstacle?_answers hlimit hF _) fun reason _ => ?_
    cases reason with
    | some reason => exact .pure trivial
    | none => exact .pure trivial
  · refine .bind (sizeObstacle?_answers hlimit hF _) fun reason _ => ?_
    cases reason with
    | some reason => exact .pure trivial
    | none =>
      dsimp only
      split
      · exact .pure trivial
      · exact .pure trivial

theorem load_fault (hlimit : settings.maxFileSize.isNumber = true) {p : Path} {f : Fault}
    (h : Source.load tree settings (.path p) = .error (.fault f)) :
    PathFault tree f ∨ isBuildFault f = true ∨
      f = .integerTooLong ∧ settings.maxFileSize.given.isWritable = false := by
  rw [Source.load, Source.loadFile] at h
  split at h
  · rename_i fault hresolve
    obtain rfl := Source.Failure.fault.inj (Except.error.inj h)
    exact .inl ((resolve_answers (fun _ hf => hf) _).fault hresolve)
  · split at h
    · rename_i fault hfault
      obtain rfl := Source.Failure.fault.inj (Except.error.inj h)
      have hanswers (q : Path) : Answers (· = .integerTooLong ∧ settings.maxFileSize.given.isWritable = false)
          (fun _ => True) (Source.readFile tree settings q) := readFile_answers hlimit (fun hlong => ⟨rfl, hlong⟩) q
      exact .inr (.inr ((hanswers _).fault hfault))
    · cases h
    · rename_i content _
      rcases bind_eq_error.mp h with h | ⟨document, -, h⟩
      · unfold Source.parse at h
        split at h
        · cases h
        · cases h
        · obtain rfl := Source.Failure.fault.inj (Except.error.inj h)
          exact .inr (.inl rfl)
        · obtain rfl := Source.Failure.fault.inj (Except.error.inj h)
          exact .inr (.inl rfl)
      · cases h

theorem readable_answers (hlimit : settings.maxFileSize.isNumber = true) {target : Path}
    (hfile : isDocumentFile tree target = true) :
    Answers (ImportFault tree settings) (fun _ => True) (readable (Source.load tree settings (.path target))) := by
  unfold readable
  split
  · exact .ok trivial
  · exact .ok trivial
  · rename_i f hload
    refine .error ?_
    rcases load_fault hlimit hload with hpath | hbuild | ⟨rfl, hlong⟩
    · exact .path hpath
    · exact .build hbuild hfile hload
    · exact .size hlong

/-- The walk over imported files is stopped only by a path, by a file that no document can be built from or by a
limit that cannot be written. -/
theorem follow_answers {levels : Nat} (hdepth : settings.maxImportDepth.isNumber = true)
    (hsize : settings.maxFileSize.isNumber = true) (base : Path) (stack : List Path) (location : Option String)
    (refs : List ImportReference) (t : Trace) : Answers (ImportFault tree settings) (fun _ => True)
      (follow tree settings levels base stack location refs t) := by
  induction base, stack, location, refs, t using follow.induct tree settings levels with
  | case1 base stack location t =>
    rw [follow]
    exact .ok trivial
  | case2 base stack location t r rest ihcycle ihrest ihdeep ihunread ihinner ihafter =>
    have hlocated : Answers (ImportFault tree settings) (fun _ => True) (r.located tree base) := by
      refine .bind (resolve_answers (fun _ => .path) _) fun target _ => ?_
      split_ifs
      · exact .bind (has_answers (fun _ => .path) _) fun _ _ => .pure trivial
      · exact .pure trivial
    rw [follow]
    refine .bind hlocated fun target _ => ?_
    dsimp only
    split_ifs with hfile hstack hchecked
    · exact ihcycle target
    · exact ihrest
    · refine .bind (Limit.isReachedBy_answers hdepth _) fun reached _ => ?_
      split_ifs
      · exact .bind (Value.checkWritable_answers .depth) fun _ _ => ihdeep
      · refine .bind (readable_answers hsize hfile) fun read _ => ?_
        cases read with
        | error e => exact ihunread target e
        | ok loaded => exact .bind (ihinner target hfile hstack loaded) fun u _ => ihafter target u
    · exact ihrest

/-- A file that no document can be built from stops the walk that comes to it. -/
theorem follow_unbuildable {levels : Nat} {base target : Path} {stack : List Path} {location : Option String}
    {r : ImportReference} {rest : List ImportReference} {t : Trace} {f : Fault}
    (hr : r.located tree base = .ok target) (hfile : isDocumentFile tree target = true) (hstack : target ∉ stack)
    (hchecked : target ∉ t.checked) (hlimit : settings.maxImportDepth.isReachedBy (.int stack.length) = .ok false)
    (hload : Source.load tree settings (.path target) = .error (.fault f)) :
    follow tree settings levels base stack location (r :: rest) t = .error f := by
  have hok {α β : Type} (a : α) (g : α → Except Fault β) : (Except.ok a >>= g) = g a := rfl
  rw [follow, hr, hok, dif_pos hfile, dif_neg (by simpa using hstack), if_neg (by simpa using hchecked), hlimit, hok,
    if_neg (by decide), hload]
  rfl

theorem checkImports_answers {levels : Nat} (hlevels : settings.walkLevels = .ok levels)
    (hdepth : settings.maxImportDepth.isNumber = true) (hsize : settings.maxFileSize.isNumber = true) (base : Path)
    (root file : Option Path) (document : Value) : Answers (ImportFault tree settings) (fun _ => True)
      (checkImports tree settings base root file document) := by
  have hresolve (p : Path) : Answers (ImportFault tree settings) (fun _ => True) (tree.resolve p) :=
    resolve_answers (fun _ => .path) p
  have htarget (base root : Path) (r : ImportReference) :
      Answers (ImportFault tree settings) (fun _ => True) (checkTarget tree base root r) := by
    refine .bind (hresolve _) fun target _ => .bind (has_answers (fun _ => .path) _) fun found _ => ?_
    split_ifs
    all_goals exact .pure trivial
  refine .bind (hresolve _) fun base _ => .bind (hresolve _) fun root _ => ?_
  refine .bind (walkLevels_answers hlevels) fun read _ => ?_
  refine .bind (.mapM fun r _ => htarget base root r) fun targets _ => ?_
  refine .bind (.mapM fun p _ => hresolve p) fun stack _ => ?_
  exact .bind (follow_answers hdepth hsize ..) fun t _ => .pure trivial

end Imports

end Validation

open Validation

/-- The limits that a validation compares with are numbers. -/
def Settings.hasLimits (settings : Settings) : Bool :=
  [settings.maxFileSize, settings.maxWalkDepth, settings.maxImportDepth, settings.maxRepeatCount].all Limit.isNumber

/-- The settings that the check of a construct or of the walk shows can be written. -/
def Settings.areShown (settings : Settings) : Bool :=
  [settings.maxWalkDepth.given, settings.maxRepeatCount.given, settings.defaultMaxIterations].all Value.isWritable

/-- The check of the imports of a document that was read before. -/
def Validation.Request.imports (tree : File.Tree) (settings : Settings) (request : Validation.Request)
    (document : Fields) : Except Fault (List Diagnostic) :=
  checkImports tree settings (request.base.getD tree.here) request.root none (.map document)

/-- The mode that is asked for or found is the extended one, so that the constructs of a document are checked. -/
def Validation.Request.IsExtended (request : Validation.Request) (levels : Nat) (document : Fields) : Prop :=
  ∃ detection chosen, Detection.ofFields levels document = .ok detection ∧
    chooseMode request.mode detection.mode = .ok chosen ∧ chosen.mode = .extended

/-- What stops the validation of a document that was read before. -/
inductive Validation.Request.StoppedBy (tree : File.Tree) (settings : Settings) (request : Validation.Request)
    (levels : Nat) (document : Fields) : Fault → Prop
  | construct {f : Fault} : request.IsExtended levels document →
      constructStop? settings levels (.map document) = some f →
      StoppedBy tree settings request levels document f
  | tasks : isFilledScalar (document.get "tasks") = true →
      StoppedBy tree settings request levels document .tasksNotIterable
  | operation : ¬ request.IsExtended levels document → HasUncheckable levels (.map document) →
      StoppedBy tree settings request levels document .operationNotHashable
  | imports {f : Fault} : isFilledScalar (document.get "tasks") = false →
      ¬ HasUncheckable levels (.map document) →
      (request.IsExtended levels document → constructStop? settings levels (.map document) = none) →
      request.imports tree settings document = .error f →
      StoppedBy tree settings request levels document f

section Stopped

variable {tree : File.Tree} {settings : Settings} {request : Validation.Request} {document : Value} {fields : Fields}
  {levels : Nat}

/-- A scalar has no tasks to walk through. -/
theorem walkTasks_of_isFilledScalar (h : isFilledScalar (fields.get "tasks") = true) :
    (Value.map fields).walkTasks (fun _ => true) levels = [] := by
  have hitems : (fields.get "tasks").items = [] := by
    cases htasks : fields.get "tasks" with
    | list vs => simp [htasks, isFilledScalar] at h
    | endless outline content => simp [htasks, isFilledScalar] at h
    | _ => rfl
  rw [Value.walkTasks_eq, show (Value.map fields).field "tasks" = fields.get "tasks" from rfl, hitems]
  rfl

theorem constructStop?_of_isFilledScalar (h : isFilledScalar (fields.get "tasks") = true) :
    constructStop? settings levels (.map fields) = none := by
  rw [constructStop?, walkTasks_of_isFilledScalar h]
  rfl

theorem not_hasUncheckable_of_isFilledScalar (h : isFilledScalar (fields.get "tasks") = true) :
    ¬ HasUncheckable levels (.map fields) := by
  rintro ⟨visit, hvisit, -⟩
  rw [walkTasks_of_isFilledScalar h] at hvisit
  cases hvisit

theorem Validation.Request.StoppedBy.unique {f g : Fault} (hf : request.StoppedBy tree settings levels fields f)
    (hg : request.StoppedBy tree settings levels fields g) : f = g := by
  cases hf with
  | construct hmode hstop =>
    cases hg with
    | construct _ hother => exact Option.some.inj (hstop.symm.trans hother)
    | tasks hscalar => cases hstop.symm.trans (constructStop?_of_isFilledScalar hscalar)
    | operation hnot => exact absurd hmode hnot
    | imports _ _ hnone => cases hstop.symm.trans (hnone hmode)
  | tasks hscalar =>
    cases hg with
    | construct _ hstop => cases hstop.symm.trans (constructStop?_of_isFilledScalar hscalar)
    | tasks => rfl
    | operation _ hun => exact absurd hun (not_hasUncheckable_of_isFilledScalar hscalar)
    | imports hnot => cases hscalar.symm.trans hnot
  | operation hmode hun =>
    cases hg with
    | construct hextended => exact absurd hextended hmode
    | tasks hscalar => exact absurd hun (not_hasUncheckable_of_isFilledScalar hscalar)
    | operation => rfl
    | imports _ hnot => exact absurd hun hnot
  | imports hnot hnone hpassed himports =>
    cases hg with
    | construct hmode hstop => cases hstop.symm.trans (hpassed hmode)
    | tasks hscalar => cases hscalar.symm.trans hnot
    | operation _ hun => exact absurd hun hnone
    | imports _ _ _ hother => exact Except.error.inj (himports.symm.trans hother)

/-- Where the constructs pass their checks, every operation can be looked up. -/
theorem not_hasUncheckable_of_constructStop {document : Value}
    (h : constructStop? settings levels document = none) : ¬ HasUncheckable levels document := by
  rintro ⟨visit, hvisit, hun⟩
  obtain ⟨event, hevent, hsome⟩ := List.mem_filterMap.mp hvisit
  have hstop := List.findSome?_eq_none_iff.mp h event hevent
  cases event with
  | limit => cases hsome
  | visit step path =>
    obtain rfl := Option.some.inj hsome
    simp [Walk.Event.stop?, Step.stop?, hun] at hstop

theorem limits_of_hasLimits (h : settings.hasLimits = true) : settings.maxFileSize.isNumber = true ∧
    settings.maxImportDepth.isNumber = true ∧ settings.maxRepeatCount.isNumber = true := by
  simp only [Settings.hasLimits, List.all_cons, Bool.and_eq_true] at h
  exact ⟨h.1, h.2.2.1, h.2.2.2.1⟩

theorem isExtended_iff {detection : Detection} {chosen : ChosenMode}
    (hdetection : Detection.ofFields levels fields = .ok detection)
    (hchosen : chooseMode request.mode detection.mode = .ok chosen) :
    request.IsExtended levels fields ↔ chosen.mode = .extended := by
  constructor
  · rintro ⟨_, _, hdetected, hchose, hmode⟩
    obtain rfl := Except.ok.inj (hdetection.symm.trans hdetected)
    obtain rfl := Except.ok.inj (hchosen.symm.trans hchose)
    exact hmode
  · exact fun hmode => ⟨detection, chosen, hdetection, hchosen, hmode⟩

/-- Only the extended mode checks constructs, and only a construct stops it. -/
theorem checkMode_answers {mode : Mode} (hextended : request.IsExtended levels fields ↔ mode = .extended)
    (hrepeat : settings.maxRepeatCount.isNumber = true) (hlevels : settings.walkLevels = .ok levels)
    (hshort : (Value.map fields).everywhere Value.isShort = true)
    (hunrolled : (Value.map fields).IsUnrolled levels) :
    Answers (request.StoppedBy tree settings levels fields)
      (fun _ => request.IsExtended levels fields → constructStop? settings levels (.map fields) = none)
      (checkMode settings mode (.map fields)) := by
  cases mode with
  | native =>
    refine ⟨fun _ _ hmode => ?_, (checkNative_answers hlevels hshort hunrolled).fault⟩
    cases hextended.mp hmode
  | extended =>
    have hanswers := checkExtended_answers hlevels hrepeat hshort
    refine ⟨fun _ hfound _ => hanswers.result hfound, fun _ hf => ?_⟩
    exact .construct (hextended.mpr rfl) (hanswers.fault hf)

/-- All checks of a document are made, or something stops them. -/
theorem checkFields_answers (tree : File.Tree) (document : Value) (hlimits : settings.hasLimits = true)
    (hlevels : settings.walkLevels = .ok levels) (hshort : (Value.map fields).everywhere Value.isShort = true)
    (hunrolled : (Value.map fields).IsUnrolled levels)
    (hmode : ∀ name, request.mode = .spelled name → name.isWritable = true) :
    Answers (request.StoppedBy tree settings levels fields)
      (fun _ => ∀ f, ¬ request.StoppedBy tree settings levels fields f)
      (checkFields tree settings request { document } fields) := by
  obtain ⟨-, -, hrepeat⟩ := limits_of_hasLimits hlimits
  refine .bind (checkSkeleton_answers hshort) fun skeleton _ => ?_
  refine .bind (walkLevels_answers hlevels) fun read hread => ?_
  rw [hread]
  refine .bind (.of_faults (detection_answers hshort hunrolled).fault) fun detection hdetection => ?_
  refine .bind (.of_faults (chooseMode_answers hmode _).fault) fun chosen hchosen => ?_
  have hextended := isExtended_iff hdetection hchosen
  refine .bind (checkMode_answers hextended hrepeat hlevels hshort hunrolled) fun constructs hpassed => ?_
  refine .bind (checkFeatures_answers hshort _) fun features _ => ?_
  have hoperation (hun : HasUncheckable levels (.map fields)) :
      request.StoppedBy tree settings levels fields .operationNotHashable :=
    .operation (fun hmode => not_hasUncheckable_of_constructStop (hpassed hmode) hun) hun
  have hreferences := checkReferences_answers (F := request.StoppedBy tree settings levels fields)
    hlevels hshort .tasks hoperation
  refine .bind (.of_faults fun f hf => hreferences.fault hf) fun references hfound => ?_
  obtain ⟨hscalar, hnone⟩ := checkable_of_checkReferences hlevels hfound
  refine .bind (.of_faults fun f hf => .imports hscalar hnone hpassed hf) fun imports himports => .pure fun f hf => ?_
  cases hf with
  | construct hmode hstop => cases hstop.symm.trans (hpassed hmode)
  | tasks htasks => cases htasks.symm.trans hscalar
  | operation _ hun => exact hnone hun
  | imports _ _ _ hother => cases hother.symm.trans himports

theorem diagnose_eq (hsource : request.source = .value document) (hfields : document.fields? = some fields) :
    diagnose tree settings request = checkFields tree settings request { document } fields := by
  have hpresent : isAbsent (.value document) = false := by
    cases document with
    | null => cases hfields
    | _ => rfl
  rw [diagnose, hsource, hpresent]
  change checkLoaded tree settings request { document } = _
  rw [checkLoaded, hfields]

/-- A validation is stopped exactly by what may stop it. -/
theorem validate_eq_error_iff (tree : File.Tree) (hsource : request.source = .value document)
    (hfields : document.fields? = some fields) (hlimits : settings.hasLimits = true)
    (hlevels : settings.walkLevels = .ok levels) (hshort : document.everywhere Value.isShort = true)
    (hunrolled : (Value.map fields).IsUnrolled levels)
    (hmode : ∀ name, request.mode = .spelled name → name.isWritable = true) (f : Fault) :
    validate tree settings request = .error f ↔ request.StoppedBy tree settings levels fields f := by
  have hanswers := checkFields_answers tree document hlimits hlevels
    (Value.everywhere_fields hshort hfields) hunrolled hmode
  rw [validate, diagnose_eq hsource hfields, bind_eq_error]
  constructor
  · rintro (hf | ⟨found, -, hf⟩)
    · exact hanswers.fault hf
    · cases hf
  · intro hstop
    cases hchecked : checkFields tree settings request { document } fields with
    | ok found => exact absurd hstop (hanswers.result hchecked f)
    | error g => exact .inl (congrArg _ ((hanswers.fault hchecked).unique hstop))

/-- Where the settings that a check shows can be written, its check is stopped only by an operation. -/
theorem Walk.Event.eq_of_stop {event : Walk.Event} {f : Fault} (h : settings.areShown = true)
    (hstop : event.stop? settings = some f) :
    f = .operationNotHashable ∧ ∃ step path, event = .visit step path ∧ step.isUncheckable = true := by
  simp only [Settings.areShown, List.all_cons, List.all_nil, Bool.and_eq_true] at h
  obtain ⟨hwalk, hrepeat, hdefault, -⟩ := h
  cases event with
  | limit path => simp [stop?, hwalk] at hstop
  | visit step path =>
    have hlacks : step.lacksBound settings = false := by
      rw [Step.lacksBound]
      cases Loop.read? step <;> simp [Loop.lacksBound, hdefault]
    have hpasses : step.passesUnwritable settings = false := by
      rw [Step.passesUnwritable]
      cases Loop.read? step <;> simp [Loop.passesUnwritable, hrepeat]
    have hshows : ¬ step.showsUnwritable settings = true := by simp [Step.showsUnwritable, hlacks, hpasses]
    rw [stop?, Step.stop?, if_neg hshows] at hstop
    split_ifs at hstop with hun
    exact ⟨(Option.some.inj hstop).symm, step, path, rfl, hun⟩

theorem constructStop?_of_areShown {document : Value} {f : Fault} (h : settings.areShown = true)
    (hstop : constructStop? settings levels document = some f) :
    f = .operationNotHashable ∧ HasUncheckable levels document := by
  obtain ⟨event, hevent, hf⟩ := List.exists_of_findSome?_eq_some hstop
  obtain ⟨rfl, step, path, rfl, hun⟩ := Walk.Event.eq_of_stop h hf
  exact ⟨rfl, ⟨step, path⟩, List.mem_filterMap.mpr ⟨_, hevent, rfl⟩, hun⟩

/-- Where the settings that a check shows can be written, the mode does not matter. -/
theorem stoppedBy_iff_of_areShown (h : settings.areShown = true) {f : Fault} :
    request.StoppedBy tree settings levels fields f ↔
      isFilledScalar (fields.get "tasks") = true ∧ f = .tasksNotIterable ∨
      HasUncheckable levels (.map fields) ∧ f = .operationNotHashable ∨
      isFilledScalar (fields.get "tasks") = false ∧ ¬ HasUncheckable levels (.map fields) ∧
        request.imports tree settings fields = .error f := by
  constructor
  · intro hstop
    cases hstop with
    | construct _ hfirst =>
      obtain ⟨rfl, hun⟩ := constructStop?_of_areShown h hfirst
      exact .inr (.inl ⟨hun, rfl⟩)
    | tasks hscalar => exact .inl ⟨hscalar, rfl⟩
    | operation _ hun => exact .inr (.inl ⟨hun, rfl⟩)
    | imports hscalar hnone _ himports => exact .inr (.inr ⟨hscalar, hnone, himports⟩)
  · rintro (⟨hscalar, rfl⟩ | ⟨hun, rfl⟩ | ⟨hscalar, hnone, himports⟩)
    · exact .tasks hscalar
    · by_cases hmode : request.IsExtended levels fields
      · cases hfirst : constructStop? settings levels (.map fields) with
        | none => exact absurd hun (not_hasUncheckable_of_constructStop hfirst)
        | some g =>
          obtain ⟨rfl, -⟩ := constructStop?_of_areShown h hfirst
          exact .construct hmode hfirst
      · exact .operation hmode hun
    · refine .imports hscalar hnone (fun _ => ?_) himports
      cases hfirst : constructStop? settings levels (.map fields) with
      | none => rfl
      | some g => exact absurd (constructStop?_of_areShown h hfirst).2 hnone

end Stopped

/-- A document that was read before is validated, where the limits are numbers and all integers of the document and
of the mode can be written. In the extended mode the validation is stopped by the first event of the walk whose
check is: a transform whose operation is a collection, or a loop or a limit of the walk that is reported with a
setting which cannot be written. Then it is stopped by tasks that are a filled scalar, by such a transform in the
native mode, and if none of these is there by the imports; nothing else stops it. If those settings can be
written, the mode does not matter. The imports stop it only if a path cannot be looked up, a file cannot be built,
or a limit on files cannot be written. A report that is made has the errors among what was found, and is valid
exactly if there are none. -/
theorem validate_stopped_iff {tree : File.Tree} {settings : Settings} {request : Validation.Request}
    {document : Value} {fields : Fields} {levels : Nat} (hsource : request.source = .value document)
    (hfields : document.fields? = some fields) (hlimits : settings.hasLimits = true)
    (hlevels : settings.walkLevels = .ok levels) (hshort : document.everywhere Value.isShort = true)
    (hunrolled : (Value.map fields).IsUnrolled levels)
    (hmode : ∀ name, request.mode = .spelled name → name.isWritable = true) :
    (∀ f, validate tree settings request = .error f ↔ request.StoppedBy tree settings levels fields f) ∧
    (settings.areShown = true → ∀ f, validate tree settings request = .error f ↔
      isFilledScalar (fields.get "tasks") = true ∧ f = .tasksNotIterable ∨
      HasUncheckable levels (.map fields) ∧ f = .operationNotHashable ∨
      isFilledScalar (fields.get "tasks") = false ∧ ¬ HasUncheckable levels (.map fields) ∧
        request.imports tree settings fields = .error f) ∧
    (∀ f, request.imports tree settings fields = .error f → ImportFault tree settings f) ∧
    ∀ report, validate tree settings request = .ok report → (report.isValid = true ↔ report.errors = []) ∧
      ∃ found, diagnose tree settings request = .ok found ∧ report.errors = found.filter (·.isError) := by
  obtain ⟨hsize, hdepth, -⟩ := limits_of_hasLimits hlimits
  have hstopped := validate_eq_error_iff tree hsource hfields hlimits hlevels hshort hunrolled hmode
  refine ⟨hstopped, fun hshown f => (hstopped f).trans (stoppedBy_iff_of_areShown hshown), fun f hf => ?_, ?_⟩
  · exact (checkImports_answers hlevels hdepth hsize _ _ _ _).fault hf
  · intro report hreport
    obtain ⟨found, hfound, hreport⟩ := bind_eq_ok.mp hreport
    obtain rfl := Except.ok.inj hreport
    exact ⟨List.isEmpty_iff, found, hfound, rfl⟩

theorem isUnrolled_of_checkNodes {v : Value} {levels : Nat} (h : v.checkNodes levels = .ok ()) :
    v.IsUnrolled levels :=
  fun depth hdepth w hw => (Value.checkNodes_eq_ok_iff.mp h depth hdepth w hw).1

/-- A transform in a conditional names its operation by a list. -/
def nestedTransform : Fields :=
  oneTask [.map [(.text "logic", .map [(.text "then", .list [transformBy (.list [])])])]]

/-- A conditional loop without a bound. -/
def boundlessLoop : Fields :=
  oneTask [.map [(.text "loop", .map [(.text "type", .text "while"), (.text "condition", .text "c"),
    (.text "flow", .list [])])]]

/-- A default bound with too many digits to be written. -/
def longDefault : Settings := { defaultMaxIterations := .int (Nat.pow 10 Number.maxDigits) }

/-- In the native mode a transform stops the validation too, although its construct is not checked. In the extended
mode a loop stops it that takes a bound from the settings which cannot be written. -/
theorem walked_steps_stop_validation :
    HasUncheckable 50 (.map nestedTransform) ∧
    validate { here := ⟨true, [], false⟩ } {}
      { source := .value (.map nestedTransform), mode := .forced .native } = .error .operationNotHashable ∧
    validate { here := ⟨true, [], false⟩ } longDefault
      { source := .value (.map boundlessLoop), mode := .forced .extended } = .error .integerTooLong := by
  have hun : HasUncheckable 50 (.map nestedTransform) := ⟨⟨_, _⟩, List.mem_of_getElem? (i := 1) rfl, rfl⟩
  have hstopped := @validate_stopped_iff { here := ⟨true, [], false⟩ } {}
    { source := .value (.map nestedTransform), mode := .forced .native } (.map nestedTransform) nestedTransform 50
    rfl rfl rfl rfl (by decide +kernel) (isUnrolled_of_checkNodes rfl) (by simp)
  have hlong := @validate_stopped_iff { here := ⟨true, [], false⟩ } longDefault
    { source := .value (.map boundlessLoop), mode := .forced .extended } (.map boundlessLoop) boundlessLoop 50
    rfl rfl rfl rfl (by decide +kernel) (isUnrolled_of_checkNodes rfl) (by simp)
  have hstop : constructStop? longDefault 50 (.map boundlessLoop) = some .integerTooLong := by decide +kernel
  exact ⟨hun, (hstopped.2.1 (by decide +kernel) _).mpr (.inr (.inl ⟨hun, rfl⟩)),
    (hlong.1 _).mpr (.construct ⟨_, _, rfl, rfl, rfl⟩ hstop)⟩

/-- A file with a date that does not exist. -/
def misdatedFile : File.Path := ⟨true, ["p", "a.yaml"], false⟩

def misdatedProject : File.Tree where
  here := ⟨true, ["p"], false⟩
  files := [(misdatedFile, "x: 2001-99-99".toUTF8.toList)]

/-- A document that imports the file and has one task without steps. -/
def importsMisdated : Fields := (.text "import", .list [.text "a.yaml"]) :: oneTask []

/-- A validation is stopped although the tasks are a list and no step is a transform. -/
theorem misdated_import_stops_validation :
    isFilledScalar (importsMisdated.get "tasks") = false ∧ ¬ HasUncheckable 50 (.map importsMisdated) ∧
    ∃ f, isBuildFault f = true ∧
      validate misdatedProject {} { source := .value (.map importsMisdated) } = .error f := by
  have hnone : ¬ HasUncheckable 50 (.map importsMisdated) := by
    rintro ⟨visit, hvisit, -⟩
    cases hvisit
  have hread : (match Source.load misdatedProject {} (.path misdatedFile) with
      | .error (.fault f) => isBuildFault f
      | _ => false) = true := by decide +kernel
  have hrefs : importReferences 50 (.map importsMisdated) = [⟨"a.yaml", "/import[0]"⟩] := by decide +kernel
  split at hread
  · rename_i f hload
    refine ⟨rfl, hnone, f, hread, ?_⟩
    have hlocated : ImportReference.located ⟨"a.yaml", "/import[0]"⟩ misdatedProject misdatedProject.here =
        .ok misdatedFile := rfl
    have hfollow : follow misdatedProject {} 50 misdatedProject.here [] none [⟨"a.yaml", "/import[0]"⟩] {} =
        .error f :=
      follow_unbuildable hlocated (by decide) (by decide) (by decide) rfl hload
    have himports : Request.imports misdatedProject {} { source := .value (.map importsMisdated) } importsMisdated =
        .error f := by
      have hbase : misdatedProject.resolve misdatedProject.here = .ok misdatedProject.here := rfl
      have hlevels : Settings.walkLevels {} = .ok 50 := rfl
      refine bind_eq_error.mpr (.inr ⟨_, hbase, ?_⟩)
      refine bind_eq_error.mpr (.inr ⟨_, hbase, ?_⟩)
      refine bind_eq_error.mpr (.inr ⟨_, hlevels, ?_⟩)
      dsimp only
      rw [hrefs]
      refine bind_eq_error.mpr (.inr ⟨[[]], rfl, ?_⟩)
      refine bind_eq_error.mpr (.inr ⟨[], rfl, ?_⟩)
      exact bind_eq_error.mpr (.inl hfollow)
    refine (validate_eq_error_iff _ rfl rfl rfl rfl (by decide +kernel) (isUnrolled_of_checkNodes rfl) ?_ f).mpr
      (.imports rfl hnone (fun _ => rfl) himports)
    simp
  · cases hread

end FlowScript
