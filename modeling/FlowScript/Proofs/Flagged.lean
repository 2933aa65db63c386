import FlowScript.Proofs.Hoisting
import FlowScript.Proofs.Fields
import FlowScript.Proofs.Layout
import FlowScript.Validation

/-!
# Skipped steps are flagged

Which steps can be compiled is decided twice: by the rules of the constructs, which leave a comment for
the others, and by validation, which checks the fields of every step. Every step that only a comment is
left of is reported by its own check, at its path or below it, unless the report would have to show a
default that cannot be written. The checks of a document are one pass, and a step that was compiled, or
that lies inside a skipped one, can stop it: a transform that names its operation by a collection does. The
main statement names all ways in which a skipped step stays without a report.
-/
namespace FlowScript

open Construct Validation

/-! ## Loops that are reported with a setting -/

namespace Construct.Loop

/-- A conditional loop gives no bound, and the one that stands for it cannot be written. -/
def lacksBound (settings : Settings) (loop : Loop) : Bool :=
  loop.kind == some "while" && loop.maxIterations.isNull && !settings.defaultMaxIterations.isWritable

/-- A counted loop is beyond the limit, and the limit cannot be written. -/
def passesUnwritable (settings : Settings) (loop : Loop) : Bool :=
  loop.kind == some "repeat" && !isAtMost loop.count 0 &&
    (isBeyond loop.count settings.maxRepeatCount).toOption == some true &&
    !settings.maxRepeatCount.given.isWritable

end Construct.Loop

namespace Step

def lacksBound (settings : Settings) (step : Step) : Bool :=
  step.kind == .loop && (Loop.read? step).any (Loop.lacksBound settings)

def passesUnwritable (settings : Settings) (step : Step) : Bool :=
  step.kind == .loop && (Loop.read? step).any (Loop.passesUnwritable settings)

end Step

namespace Validation

/-! ## Flags of single steps -/

/-- An error at or below the path of a step, or the warning that the step is not recognised. -/
def Flags (path : String) (d : Diagnostic) : Prop :=
  d.kind = .construct ∧
    (d.isError = true ∧ (d.location = path ∨ ∃ below, d.location = path ++ "/" ++ below) ∨
      d.isError = false ∧ d.location = path ∧ ∃ keys, d.message =
        "Unrecognized step with keys " ++ keys ++ "; it will be emitted as a comment.")

variable {settings : Settings} {step : Step} {path text : String}

theorem flags_error (message : String) {location : String} (below : String)
    (h : location = path ++ ("/" ++ below)) : Flags path (constructError message location) :=
  ⟨rfl, .inl ⟨rfl, .inr ⟨below, h.trans (String.append_assoc ..).symm⟩⟩⟩

/-- A check answers, and one of its diagnostics reports the step. -/
def Flagged (path : String) (check : Except Fault (List Diagnostic)) : Prop :=
  ∃ found, check = .ok found ∧ ∃ d ∈ found, Flags path d

theorem flagged_singleton {d : Diagnostic} (h : Flags path d) : Flagged path (.ok [d]) :=
  ⟨[d], rfl, d, List.mem_singleton_self d, h⟩

theorem flagged_whenever {condition : Bool} {d : Diagnostic} (h : condition = true) (hd : Flags path d) :
    Flagged path (.ok (whenever condition d)) := by
  rw [whenever, if_pos h]
  exact flagged_singleton hd

theorem flagged_append {found : List Diagnostic} (more : List Diagnostic) (h : Flagged path (.ok found)) :
    Flagged path (.ok (found ++ more)) := by
  obtain ⟨_, ⟨⟩, d, hmem, hd⟩ := h
  exact ⟨_, rfl, d, List.mem_append_left more hmem, hd⟩

theorem wheneverShown_of_isWritable {v : Value} (h : v.isWritable = true) (condition : Bool)
    (d : String → Diagnostic) : wheneverShown condition v d = .ok (whenever condition (d v.display)) := by
  cases condition with
  | false => rfl
  | true =>
    rw [wheneverShown, if_pos rfl, Value.shown_of_isWritable h]
    rfl

theorem checkVariables_flagged (hk : step.kind = .variables) (h : step.isSkipped = true) :
    Flagged path (.ok (checkVariables step path)) := by
  simp only [Step.isSkipped, hk] at h
  exact flagged_whenever h (flags_error _ "variables" rfl)

theorem checkLogic_flagged (hk : step.kind = .logic) (h : step.isSkipped = true) :
    Flagged path (.ok (checkLogic step path)) := by
  simp only [Step.isSkipped, hk] at h
  unfold checkLogic
  cases hfields : (step.get "logic").fields? with
  | none => exact flagged_singleton (flags_error _ "logic" rfl)
  | some logic =>
    simp only [Value.field, hfields] at h
    refine flagged_append _ (flagged_append _ (flagged_append _ (flagged_whenever h ?_)))
    exact flags_error _ "logic/if" (String.append_assoc ..)

/-- The check of a conditional loop fails only if it has to show a default that cannot be written. -/
theorem checkWhile_answer {loop : Loop} (hk : loop.kind = some "while") (hw : loop.maxIterations.isWritable = true) :
    ∃ more, checkWhile settings loop path =
      if loop.lacksBound settings then .error .integerTooLong
      else .ok (whenever loop.condition.isNull (constructError
        "Loop of type 'while' requires a 'condition' field." (path ++ "/condition")) ++ more) := by
  unfold checkWhile Loop.lacksBound
  cases hnull : loop.maxIterations.isNull with
  | true =>
    cases hdefault : settings.defaultMaxIterations.isWritable with
    | true =>
      simp only [hnull, Value.shown_of_isWritable hdefault, Bool.not_true, Bool.and_false, Bool.false_eq_true, if_false,
        if_true]
      exact ⟨_, rfl⟩
    | false =>
      simp only [hk, hnull, Value.shown_of_not_isWritable hdefault, beq_self_eq_true, Bool.and_self, Bool.not_false,
        if_true]
      exact ⟨[], rfl⟩
  | false =>
    simp only [hnull, wheneverShown_of_isWritable hw, Bool.and_false, Bool.false_and, Bool.false_eq_true, if_false]
    exact ⟨_, rfl⟩

theorem checkWhile_flagged {loop : Loop} (hk : loop.kind = some "while") (hc : loop.condition.isNull = true)
    (hw : loop.maxIterations.isWritable = true) (hbound : loop.lacksBound settings = false) :
    Flagged path (checkWhile settings loop (path ++ "/loop")) := by
  obtain ⟨more, hanswer⟩ := @checkWhile_answer settings (path ++ "/loop") loop hk hw
  rw [hanswer, hbound, if_neg Bool.false_ne_true]
  exact flagged_append _ (flagged_whenever hc (flags_error _ "loop/condition" (String.append_assoc ..)))

/-- A loop whose kind is not known or lacks the field it needs. -/
theorem checkLoopKind_flagged {loop : Loop} (h : Step.isLoop loop = false) (hw : loop.maxIterations.isWritable = true)
    (hbound : loop.lacksBound settings = false) :
    Flagged path (checkLoopKind settings loop (path ++ "/loop")) := by
  unfold Step.isLoop at h
  unfold checkLoopKind
  split
  case h_1 => exact flagged_singleton (flags_error _ "loop/type" (String.append_assoc ..))
  case h_2 hkind =>
    simp only [hkind, Bool.not_eq_false'] at h
    exact flagged_whenever h (flags_error _ "loop/items" (String.append_assoc ..))
  case h_3 hkind =>
    simp only [hkind, Bool.not_eq_false'] at h
    exact checkWhile_flagged hkind h hw hbound
  case h_4 hkind =>
    simp only [hkind, Bool.not_eq_false'] at h
    simp only [checkRepeat, h, if_true]
    exact flagged_singleton (flags_error _ "loop/count" (String.append_assoc ..))
  case h_5 => exact flagged_singleton (flags_error _ "loop/type" (String.append_assoc ..))

theorem checkLoop_flagged (hk : step.kind = .loop) (h : step.isSkipped = true)
    (hquoted : (Value.map step).json = .ok text) (hlacks : step.lacksBound settings = false) :
    Flagged path (checkLoop settings step path) := by
  simp only [Step.isSkipped, hk, Loop.read?] at h
  unfold checkLoop
  cases hfields : (step.get "loop").fields? with
  | none => exact flagged_singleton (flags_error _ "loop" rfl)
  | some es =>
    have hkind : Step.isLoop (Loop.ofFields es) = false := by simpa [hfields] using h
    obtain ⟨inside, hinside⟩ := Value.json_inside hquoted hfields
    obtain ⟨bound, hbound⟩ := Value.json_firstOf hinside Loop.maxIterationsKeys
    have hlacks : (Loop.ofFields es).lacksBound settings = false := by
      simpa [Step.lacksBound, Loop.read?, hk, hfields] using hlacks
    have hflagged : Flagged path (checkLoopKind settings (Loop.ofFields es) (path ++ "/loop")) :=
      checkLoopKind_flagged hkind (Value.isWritable_of_json _ hbound) hlacks
    obtain ⟨found, hfound, hflags⟩ := hflagged
    simp only [hfound]
    exact flagged_append _ ⟨found, rfl, hflags⟩

theorem checkImport_flagged (hk : step.kind = .importing) (h : step.isSkipped = true) :
    Flagged path (.ok (checkImport step path)) := by
  simp only [Step.isSkipped, hk] at h
  exact flagged_whenever h (flags_error _ "import" rfl)

theorem checkTransform_flagged (hk : step.kind = .transform) (h : step.isSkipped = true) :
    Flagged path (checkTransform step path) := by
  simp only [Step.isSkipped, hk, Value.isMap, Bool.not_eq_true', Option.isSome_eq_false_iff,
    Option.isNone_iff_eq_none] at h
  simp only [checkTransform, h]
  exact flagged_singleton (flags_error _ "data_transform" rfl)

theorem checkParallel_flagged (hk : step.kind = .parallel) (h : step.isSkipped = true) :
    Flagged path (.ok (checkParallel step path)) := by
  simp only [Step.isSkipped, hk, Parallel.read?, Option.isNone_map, Option.isNone_iff_eq_none] at h
  cases hmap : (step.get "parallel").isMap with
  | false =>
    simp only [checkParallel, hmap, Bool.not_false, if_true]
    exact flagged_singleton (flags_error _ "parallel" rfl)
  | true =>
    simp only [checkParallel, hmap, Bool.not_true, Bool.false_eq_true, if_false, h]
    exact flagged_singleton (flags_error _ "parallel/tasks" (String.append_assoc ..))

theorem checkUse_flagged (hk : step.kind = .use) (h : step.isSkipped = true) :
    Flagged path (.ok (checkUse step path)) := by
  simp only [Step.isSkipped, hk] at h
  exact flagged_append _ (flagged_whenever h (flags_error _ "use" rfl))

/-- The method of a request that can be quoted is checked without a fault. -/
theorem exists_checkMethod {call : Fields} (hquoted : (Value.map call).json = .ok text) (path : String) :
    ∃ found, checkMethod (call.get "method") path = .ok found := by
  obtain ⟨method, hmethod⟩ := Value.json_get hquoted "method"
  unfold checkMethod
  by_cases hnull : (call.get "method").isNull = true
  · simp only [hnull, if_true]
    exact ⟨_, rfl⟩
  · simp only [hnull, Value.shown_of_isWritable (Value.isWritable_of_json _ hmethod)]
    exact ⟨_, rfl⟩

theorem checkCall_flagged (hk : step.kind = .call) (h : step.isSkipped = true)
    (hquoted : (Value.map step).json = .ok text) : Flagged path (checkCall step path) := by
  simp only [Step.isSkipped, hk] at h
  unfold checkCall
  cases hfields : (step.get "external_call").fields? with
  | none => exact flagged_singleton (flags_error _ "external_call" rfl)
  | some call =>
    have hcall : Step.isCall call = false := by simpa [hfields] using h
    obtain ⟨inside, hinside⟩ := Value.json_inside hquoted hfields
    dsimp only
    split
    case h_1 => exact flagged_singleton (flags_error _ "external_call/type" (String.append_assoc ..))
    case h_2 htype =>
      have hurl : (call.get "url").isFilled = false := by simpa [Step.isCall, htype, Value.text?] using hcall
      obtain ⟨method, hmethod⟩ := exists_checkMethod hinside (path ++ "/external_call")
      simp only [checkHttp, hmethod]
      refine flagged_append _ (flagged_whenever (by rw [hurl]; rfl) ?_)
      exact flags_error _ "external_call/url" (String.append_assoc ..)
    case h_3 htype =>
      have hcommand : (call.get "command").isFilled = false := by
        simpa [Step.isCall, htype, Value.text?] using hcall
      simp only [checkShell, hcommand, Bool.not_false, if_true]
      exact flagged_singleton (flags_error _ "external_call/command" (String.append_assoc ..))
    case h_4 =>
      obtain ⟨type, htype⟩ := Value.json_get hinside "type"
      rw [wheneverShown_of_isWritable (Value.isWritable_of_json _ htype)]
      exact flagged_whenever rfl (flags_error _ "external_call/type" (String.append_assoc ..))

theorem checkUnknown_flagged (hquoted : (Value.map step).json = .ok text) :
    Flagged path (checkUnknown step path) := by
  have hkeys : ∃ keys, step.mapM (fun e => e.1.shown) = .ok keys := by
    refine exists_results fun e he => ⟨e.1.display, ?_⟩
    exact Value.shown_of_isWritable (Value.json_entry hquoted he).1
  obtain ⟨keys, hkeys⟩ := hkeys
  simp only [checkUnknown, keyList, hkeys]
  exact flagged_singleton ⟨rfl, .inr ⟨rfl, rfl, _, rfl⟩⟩

/-- A step that can only be quoted is reported by its own check, as far as the check can show the default. -/
theorem checkStep_flagged (h : step.isSkipped = true) (hquoted : (Value.map step).json = .ok text)
    (hlacks : step.lacksBound settings = false) : Flagged path (checkStep settings step path) := by
  unfold checkStep
  split
  case h_1 hk => exact checkVariables_flagged hk h
  case h_2 hk => exact checkLogic_flagged hk h
  case h_3 hk => exact checkLoop_flagged hk h hquoted hlacks
  case h_4 hk => exact checkImport_flagged hk h
  case h_5 hk => exact checkTransform_flagged hk h
  case h_6 hk => simp [Step.isSkipped, hk] at h
  case h_7 hk => exact checkCall_flagged hk h hquoted
  case h_8 hk => exact checkParallel_flagged hk h
  case h_9 hk => exact checkUse_flagged hk h
  case h_10 hk => simp [Step.isSkipped, hk] at h
  case h_11 hk => exact checkUnknown_flagged hquoted

theorem checkStep_of_lacksBound (h : step.lacksBound settings = true) (hquoted : (Value.map step).json = .ok text) :
    checkStep settings step path = .error .integerTooLong := by
  rw [Step.lacksBound, Bool.and_eq_true, beq_iff_eq] at h
  obtain ⟨hk, hloop⟩ := h
  rw [Loop.read?] at hloop
  unfold checkStep checkLoop
  cases hfields : (step.get "loop").fields? with
  | none => simp [hfields] at hloop
  | some es =>
    rw [hfields] at hloop
    have hlacks : (Loop.ofFields es).lacksBound settings = true := hloop
    have hkind : (Loop.ofFields es).kind = some "while" := by
      rw [Loop.lacksBound, Bool.and_eq_true, Bool.and_eq_true, beq_iff_eq] at hlacks
      exact hlacks.1.1
    obtain ⟨inside, hinside⟩ := Value.json_inside hquoted hfields
    obtain ⟨bound, hbound⟩ := Value.json_firstOf hinside Loop.maxIterationsKeys
    obtain ⟨more, hanswer⟩ := @checkWhile_answer settings (path ++ "/loop") _ hkind (Value.isWritable_of_json _ hbound)
    rw [hlacks, if_pos rfl] at hanswer
    simp only [hk, checkLoopKind, hkind, hanswer]
    rfl

/-! ## Checks that cannot answer -/

/-- A transform names its operation by a collection, a count is compared with a limit that is no number,
a loop is reported with a bound or a limit that cannot be written, or an integer of the step has too many digits
for it to be shown. -/
def Uncheckable (settings : Settings) (step : Step) : Prop :=
  (step.kind = .transform ∧ ((step.get "data_transform").field "operation").isHashable = false) ∨
    (step.kind = .loop ∧ ∀ n, settings.maxRepeatCount.most ≠ .ok n) ∨
    step.lacksBound settings = true ∨ step.passesUnwritable settings = true ∨
    ∀ text, (Value.map step).json ≠ .ok text

theorem exists_isPassedBy {limit : Limit} {n : Int} (h : limit.most = .ok n) (v : Value) :
    ∃ passed, limit.isPassedBy v = .ok passed := by
  unfold Limit.isPassedBy Limit.compareTo
  unfold Limit.most Limit.rounded at h
  split
  case h_4 => simp_all
  all_goals exact ⟨_, rfl⟩

/-- The check of a counted loop fails only if it has to show a limit that cannot be written. -/
theorem checkRepeat_answer {loop : Loop} {n : Int} (hk : loop.kind = some "repeat")
    (hlimit : settings.maxRepeatCount.most = .ok n) (hw : loop.count.isWritable = true) :
    ∃ found, checkRepeat settings loop path =
      if loop.passesUnwritable settings then .error .integerTooLong else .ok found := by
  have hbeyond : ∃ beyond, isBeyond loop.count settings.maxRepeatCount = .ok beyond := by
    unfold isBeyond
    split_ifs
    · exact exists_isPassedBy hlimit loop.count
    · exact ⟨_, rfl⟩
  obtain ⟨beyond, hbeyond⟩ := hbeyond
  unfold checkRepeat Loop.passesUnwritable
  cases hnull : loop.count.isNull with
  | true =>
    obtain rfl : beyond = false := by
      rw [Value.eq_null_of_isNull hnull] at hbeyond
      exact (Except.ok.inj hbeyond).symm
    have hstays : (Except.toOption (.ok false : Except Fault Bool) == some true) = false := rfl
    simp only [hnull, hbeyond, hstays, Bool.and_false, Bool.false_and]
    exact ⟨_, rfl⟩
  | false =>
    simp only [hk, hbeyond, hnull, wheneverShown_of_isWritable hw]
    cases isAtMost loop.count 0 with
    | true => exact ⟨_, rfl⟩
    | false =>
      cases beyond with
      | false => exact ⟨_, rfl⟩
      | true =>
        cases hlong : settings.maxRepeatCount.given.isWritable with
        | true =>
          simp only [Limit.shown, Value.shown_of_isWritable hlong]
          exact ⟨_, rfl⟩
        | false =>
          simp only [Limit.shown, Value.shown_of_not_isWritable hlong]
          exact ⟨[], rfl⟩

/-- The check of the kind of a loop fails only if it has to show a setting that cannot be written. -/
theorem checkLoopKind_answer {loop : Loop} {n : Int} (hlimit : settings.maxRepeatCount.most = .ok n)
    (hbound : loop.maxIterations.isWritable = true) (hcount : loop.count.isWritable = true) :
    ∃ found, checkLoopKind settings loop path =
      if loop.lacksBound settings || loop.passesUnwritable settings then .error .integerTooLong else .ok found := by
  have hother (hw : loop.kind ≠ some "while") (hr : loop.kind ≠ some "repeat") :
      (loop.lacksBound settings || loop.passesUnwritable settings) = false := by
    simp [Loop.lacksBound, Loop.passesUnwritable, hw, hr]
  unfold checkLoopKind
  split
  case h_3 hkind =>
    have hpasses : loop.passesUnwritable settings = false := by simp [Loop.passesUnwritable, hkind]
    obtain ⟨more, hanswer⟩ := @checkWhile_answer settings path loop hkind hbound
    rw [hpasses, Bool.or_false]
    exact ⟨_, hanswer⟩
  case h_4 hkind =>
    have hlacks : loop.lacksBound settings = false := by simp [Loop.lacksBound, hkind]
    rw [hlacks, Bool.false_or]
    exact checkRepeat_answer hkind hlimit hcount
  case h_5 other hfor hwhile hrepeat hkind =>
    rw [hother (by simpa [hkind] using hwhile) (by simpa [hkind] using hrepeat)]
    exact ⟨_, rfl⟩
  all_goals
    rename_i hkind
    rw [hother (by simp [hkind]) (by simp [hkind])]
    exact ⟨_, rfl⟩

/-- The check of a loop that can be quoted fails only if it has to show a setting that cannot be written. -/
theorem checkLoop_answer {n : Int} (hk : step.kind = .loop) (hlimit : settings.maxRepeatCount.most = .ok n)
    (hquoted : (Value.map step).json = .ok text) : ∃ found, checkLoop settings step path =
      if step.lacksBound settings || step.passesUnwritable settings then .error .integerTooLong else .ok found := by
  unfold checkLoop Step.lacksBound Step.passesUnwritable Loop.read?
  cases hfields : (step.get "loop").fields? with
  | none =>
    simp only [Option.map_none, Option.any_none, Bool.and_false, Bool.or_false]
    exact ⟨_, rfl⟩
  | some es =>
    obtain ⟨inside, hinside⟩ := Value.json_inside hquoted hfields
    obtain ⟨bound, hbound⟩ := Value.json_firstOf hinside Loop.maxIterationsKeys
    obtain ⟨count, hcount⟩ := Value.json_firstOf hinside Loop.countKeys
    obtain ⟨found, hfound⟩ := @checkLoopKind_answer settings (path ++ "/loop") (Loop.ofFields es) n hlimit
      (Value.isWritable_of_json _ hbound) (Value.isWritable_of_json _ hcount)
    simp only [hfound, hk, beq_self_eq_true, Bool.true_and, Option.map_some, Option.any_some]
    split_ifs
    · exact ⟨[], rfl⟩
    · exact ⟨_, rfl⟩

theorem exists_checkTransform
    (hoperation : ((step.get "data_transform").field "operation").isHashable = true)
    (hquoted : (Value.map step).json = .ok text) : ∃ found, checkTransform step path = .ok found := by
  unfold checkTransform
  cases hfields : (step.get "data_transform").fields? with
  | none => exact ⟨_, rfl⟩
  | some transform =>
    obtain ⟨inside, hinside⟩ := Value.json_inside hquoted hfields
    obtain ⟨operation, hjson⟩ := Value.json_get hinside "operation"
    simp only [Value.field, hfields] at hoperation
    have hflat : ∃ found,
        checkFlatOperation (transform.get "operation") (path ++ "/data_transform") = .ok found := by
      unfold checkFlatOperation
      split
      case h_3 =>
        rw [if_pos hoperation, wheneverShown_of_isWritable (Value.isWritable_of_json _ hjson)]
        exact ⟨_, rfl⟩
      all_goals exact ⟨_, rfl⟩
    obtain ⟨found, hfound⟩ := hflat
    simp only [hfound]
    exact ⟨_, rfl⟩

theorem exists_checkCall (hquoted : (Value.map step).json = .ok text) :
    ∃ found, checkCall step path = .ok found := by
  unfold checkCall
  cases hfields : (step.get "external_call").fields? with
  | none => exact ⟨_, rfl⟩
  | some call =>
    obtain ⟨inside, hinside⟩ := Value.json_inside hquoted hfields
    obtain ⟨type, htype⟩ := Value.json_get hinside "type"
    dsimp only
    split
    case h_2 =>
      obtain ⟨method, hmethod⟩ := exists_checkMethod hinside (path ++ "/external_call")
      simp only [checkHttp, hmethod]
      exact ⟨_, rfl⟩
    case h_4 =>
      rw [wheneverShown_of_isWritable (Value.isWritable_of_json _ htype)]
      exact ⟨_, rfl⟩
    all_goals exact ⟨_, rfl⟩

theorem checkEvent_limit (settings : Settings) (path : String) : checkEvent settings (.limit path) =
    if settings.maxWalkDepth.given.isWritable then .ok [safetyWarning ("Nesting exceeds " ++
      settings.maxWalkDepth.text ++ " levels; deeper steps were not validated.") path]
    else .error .integerTooLong := by
  rw [checkEvent, Limit.shown]
  split_ifs with hwritable
  · rw [Value.shown_of_isWritable hwritable]
    rfl
  · rw [Value.shown_of_not_isWritable (by simpa using hwritable)]
    rfl

/-- The check of a step fails only for the reasons named. -/
theorem uncheckable_of_error {f : Fault} (h : checkStep settings step path = .error f) :
    Uncheckable settings step := by
  by_contra hnot
  simp only [Uncheckable, not_or, not_and, not_forall, not_not, Bool.not_eq_false, Bool.not_eq_true] at hnot
  obtain ⟨hoperation, hlimit, hlacks, hpasses, text, hquoted⟩ := hnot
  have hanswer : ∃ found, checkStep settings step path = .ok found := by
    unfold checkStep
    split
    case h_3 hk =>
      obtain ⟨n, hn⟩ := hlimit hk
      obtain ⟨found, hfound⟩ := @checkLoop_answer settings step path text n hk hn hquoted
      rw [hlacks, hpasses, if_neg (by decide)] at hfound
      exact ⟨found, hfound⟩
    case h_5 hk => exact exists_checkTransform (hoperation hk) hquoted
    case h_7 => exact exists_checkCall hquoted
    case h_11 =>
      obtain ⟨found, hfound, -⟩ := checkUnknown_flagged hquoted
      exact ⟨found, hfound⟩
    all_goals exact ⟨_, rfl⟩
  obtain ⟨found, hfound⟩ := hanswer
  cases hfound.symm.trans h

end Validation

/-! ## Documents -/

namespace Program

open Pass

variable {ctx : Context} {nested : Flow → Pass Block} {step : Step} {b : Block} {s s' : State}

/-- Only of a step that cannot be compiled does its rule leave a comment and record something. -/
theorem StepRun.isSkipped_of_comment {text : String} (h : StepRun nested ctx step s b s')
    (hb : b = [.comment text]) (hrecord : s'.skipped ≠ s.skipped) : step.isSkipped = true := by
  cases h with
  | skipped hskip _ => exact hskip
  | assignments _ _ _ run => exact absurd (bindingsBlock_binds run).skipped hrecord
  | importing _ _ _ run => exact absurd (importBlock_binds run).skipped hrecord
  | emptyGroup _ _ _ _ hbinds => exact absurd hbinds.skipped hrecord
  | transform | group => simp [List.append_eq_singleton_iff] at hb
  | _ => cases hb

/-- A step that the flow of a task leads to, and that its rule was run on. -/
structure Reached (ctx : Context) (flow : Flow) (step : Step) : Prop where
  visited : ∃ levels, ctx.settings.walkLevels = .ok levels ∧ step ∈ flow.steps (fun _ => true) levels
  compiled : ∃ nested s b s', (stepBlock ctx nested step).Runs s b s'

/-- From one state to the next some steps of a kind were given to their rules. -/
def Pass.State.RecordsOnly (P : Step → Prop) (s s' : State) : Prop :=
  ∃ handed, s.Records handed s' ∧ ∀ step ∈ handed, P step

namespace Pass.State.RecordsOnly

variable {P Q : Step → Prop} {t : State}

theorem of_binds {names : List String} (h : s.Binds names s') : s.RecordsOnly P s' :=
  ⟨[], .of_binds h, by simp⟩

protected theorem trans (h : s.RecordsOnly P t) (h' : t.RecordsOnly P s') : s.RecordsOnly P s' := by
  obtain ⟨handed, hrecords, hall⟩ := h
  obtain ⟨more, hmore, hall'⟩ := h'
  refine ⟨handed ++ more, hrecords.trans hmore, fun step hstep => ?_⟩
  exact (List.mem_append.mp hstep).elim (hall step) (hall' step)

theorem mono (h : s.RecordsOnly P s') (himp : ∀ step, P step → Q step) : s.RecordsOnly Q s' := by
  obtain ⟨handed, hrecords, hall⟩ := h
  exact ⟨handed, hrecords, fun step hstep => himp step (hall step hstep)⟩

theorem each {α : Type} {f : α → Pass Block} {entries : List α}
    (hf : ∀ entry ∈ entries, ∀ {s b s'}, (f entry).Runs s b s' → s.RecordsOnly P s')
    (h : (each f entries).Runs s b s') : s.RecordsOnly P s' := by
  induction entries generalizing s b with
  | nil =>
    obtain ⟨-, rfl⟩ := runs_each_nil.mp h
    exact .of_binds (.refl _)
  | cons entry rest ih =>
    obtain ⟨first, t, others, hfirst, hrest, -⟩ := runs_each_cons.mp h
    have hothers := ih (fun entry hentry => hf entry (List.mem_cons_of_mem _ hentry)) hrest
    exact (hf entry List.mem_cons_self hfirst).trans hothers

end Pass.State.RecordsOnly

theorem flowAt_reached {level : Int} {flow : Flow} (hlevel : 1 ≤ level)
    (h : (flowAt ctx level flow).Runs s b s') : s.RecordsOnly (Reached ctx flow) s' := by
  simp only [flowAt, levelsFrom, runs_bind, runs_lift] at h
  obtain ⟨left, _, ⟨hleft, rfl⟩, h⟩ := h
  obtain ⟨most, hmost, hleft⟩ := bind_eq_ok.mp hleft
  obtain rfl := Except.ok.inj hleft
  obtain ⟨levels, hlevels, hle⟩ := Limit.exists_levels hmost
  have hle : (most + 1 - level).toNat ≤ levels := by omega
  refine ⟨_, flowBlock_records h, fun step hstep => ⟨⟨levels, hlevels, ?_⟩, exists_run_of_mem_steps h hstep⟩⟩
  exact Flow.steps_subset_of_enters (steps_mono hle _ hstep)

theorem documentImport_binds {entry : Value} (h : (documentImport ctx entry).Runs s b s') :
    ∃ names, s.Binds names s' := by
  unfold documentImport at h
  split at h
  · unfold entryBlock at h
    split_ifs at h
    · obtain ⟨name, t, hn, h⟩ := runs_bind.mp h
      obtain ⟨-, hb⟩ := importName_spec hn
      cases name with
      | none => exact ⟨_, hb.trans (importBlock_binds h)⟩
      | some bound =>
        simp only [runs_bind, runs_pure] at h
        obtain ⟨_, _, hd, code, _, hv, rfl, rfl⟩ := h
        exact ⟨_, (hb.trans (binds_of_declare hd)).trans (valueCode_quiet _ _ hv)⟩
    · exact ⟨_, importBlock_binds h⟩
  · simp only [jsonOf, runs_bind, runs_lift, runs_pure] at h
    obtain ⟨quoted, _, ⟨-, rfl⟩, _, _, hw, rfl, rfl⟩ := h
    exact ⟨_, Quiet.warn _ hw⟩

theorem outputBlock_quiet (output : Value) : Quiet (outputBlock ctx output) :=
  (outputBlock_noting ctx output).quiet

theorem taskBlock_reached {total : Nat} {numbered : Value × Nat}
    (h : (taskBlock ctx total numbered).Runs s b s') :
    s.RecordsOnly (fun step => ∃ flow, numbered.1.taskFlow? = some flow ∧ Reached ctx flow step) s' := by
  simp only [taskBlock] at h
  cases hflow : numbered.1.taskFlow? with
  | none =>
    simp only [hflow, runs_bind, runs_pure] at h
    obtain ⟨_, _, hw, -, rfl⟩ := h
    exact .of_binds (Quiet.warn _ hw)
  | some flow =>
    simp only [hflow, runs_bind, runs_pure] at h
    obtain ⟨body, t, hbody, output, _, houtput, -, rfl⟩ := h
    have hsteps : s.RecordsOnly (Reached ctx flow) t := by
      unfold taskFlowBlock at hbody
      split at hbody
      · simp only [runs_bind, runs_pure] at hbody
        obtain ⟨_, _, hr, _, _, hbody, -, rfl⟩ := hbody
        exact .trans (.of_binds (Quiet.requireHelper _ hr)) (flowAt_reached (by decide) hbody)
      · exact flowAt_reached (by decide) hbody
    exact (hsteps.mono fun step hstep => ⟨flow, rfl, hstep⟩).trans (.of_binds (outputBlock_quiet _ houtput))

/-- The steps that the pass over a document comes to are visited by the walk over it. -/
theorem documentBlock_reached {document : Fields} (h : (documentBlock ctx document).Runs s b s') :
    s.RecordsOnly (fun step => (∃ levels path, ctx.settings.walkLevels = .ok levels ∧
      ⟨step, path⟩ ∈ Walk.visits ((Value.map document).walkTasks (fun _ => true) levels)) ∧
      ∃ nested s b s', (stepBlock ctx nested step).Runs s b s') s' := by
  simp only [documentBlock, prologue, documentImports, runs_bind, runs_pure] at h
  obtain ⟨first, t, ⟨imports, _, hi, globals, _, hg, -, rfl⟩, body, _, hbody, -, rfl⟩ := h
  have himports : s.RecordsOnly (fun _ => False) _ := .each (fun entry _ _ _ _ hentry => by
    obtain ⟨names, hb⟩ := documentImport_binds hentry
    exact .of_binds hb) hi
  have hprologue := himports.trans (.of_binds (bindingsBlock_binds hg))
  refine (hprologue.mono fun _ hfalse => hfalse.elim).trans (.each (fun numbered hmem _ _ _ htask => ?_) hbody)
  refine (taskBlock_reached htask).mono ?_
  rintro step ⟨flow, hflow, ⟨levels, hlevels, hstep⟩, hcompiled⟩
  rw [← Flow.visits_walk _ _ _ (taskFlowPath numbered.2)] at hstep
  obtain ⟨⟨_, path⟩, hvisit, rfl⟩ := List.mem_map.mp hstep
  refine ⟨⟨levels, path, hlevels, ?_⟩, hcompiled⟩
  rw [Value.walkTasks_eq, Flow.visits_flatMap]
  refine List.mem_flatMap.mpr ⟨numbered, hmem, ?_⟩
  simp only [hflow]
  exact hvisit

/-- The check of a step flags it, or it has to show a default that cannot be written. -/
def FlaggedUnlessLong (settings : Settings) (step : Step) (path : String) : Prop :=
  Flagged path (checkStep settings step path) ∨
    step.lacksBound settings = true ∧ checkStep settings step path = .error .integerTooLong

/-- A step that its rule was run on and that cannot be compiled is flagged by its own check. -/
theorem flagged_of_runs (h : (stepBlock ctx nested step).Runs s b s') (hskip : step.isSkipped = true)
    (settings : Settings) (path : String) : FlaggedUnlessLong settings step path := by
  obtain ⟨text, hquoted⟩ := ((stepRun_of_runs h).of_isSkipped hskip).2.quoted
  cases hlacks : step.lacksBound settings with
  | false => exact .inl (checkStep_flagged hskip hquoted hlacks)
  | true => exact .inr ⟨hlacks, checkStep_of_lacksBound hlacks hquoted⟩

/-- A step of a document that only a comment is left of is visited by the walk, and its check flags it. -/
theorem flagged_of_mem_skipped {document : Fields} (h : (documentBlock ctx document).Runs {} b s')
    (hmem : Value.map step ∈ s'.skipped) :
    (∃ levels path, ctx.settings.walkLevels = .ok levels ∧
      ⟨step, path⟩ ∈ Walk.visits ((Value.map document).walkTasks (fun _ => true) levels)) ∧
      ∀ settings path, FlaggedUnlessLong settings step path := by
  obtain ⟨handed, hrecords, hall⟩ := documentBlock_reached h
  obtain ⟨more, hmore, hiff⟩ := hrecords.skipped
  rw [hmore, List.nil_append, hiff] at hmem
  obtain ⟨hhanded, hskip⟩ := hmem
  obtain ⟨hvisit, _, _, _, _, hrun⟩ := hall step hhanded
  exact ⟨hvisit, flagged_of_runs hrun hskip⟩

theorem checkExtended_eq {settings : Settings} {levels : Nat} (hlevels : settings.walkLevels = .ok levels)
    (document : Value) : checkExtended settings document =
      ((document.walkTasks (fun _ => true) levels).mapM (checkEvent settings)).map List.flatten := by
  unfold checkExtended
  rw [hlevels]
  change ((document.walkTasks (fun _ => true) levels).mapM (checkEvent settings) >>= fun found =>
    pure found.flatten) = _
  cases (document.walkTasks (fun _ => true) levels).mapM (checkEvent settings) <;> rfl

/-- The walk meets its limit, and the limit cannot be written. -/
def MeetsUnwritable (settings : Settings) (events : List Walk.Event) : Prop :=
  settings.maxWalkDepth.given.isWritable = false ∧ ∃ path, .limit path ∈ events

/-- What the checks of a document find about a step it visits, unless the check of one step fails. -/
theorem flagged_or_error {settings : Settings} {document : Value} {levels : Nat} {path : String}
    (hlevels : settings.walkLevels = .ok levels)
    (hvisit : ⟨step, path⟩ ∈ Walk.visits (document.walkTasks (fun _ => true) levels))
    (hflagged : FlaggedUnlessLong settings step path) :
    Flagged path (checkExtended settings document) ∨ ∃ f, checkExtended settings document = .error f ∧
      ((∃ culprit ∈ Walk.visits (document.walkTasks (fun _ => true) levels),
          checkStep settings culprit.step culprit.path = .error f) ∨
        f = .integerTooLong ∧ MeetsUnwritable settings (document.walkTasks (fun _ => true) levels)) := by
  rw [checkExtended_eq hlevels]
  cases hchecks : (document.walkTasks (fun _ => true) levels).mapM (checkEvent settings) with
  | ok results =>
    left
    obtain ⟨event, hevent, hstep⟩ := List.mem_filterMap.mp hvisit
    obtain ⟨found, hfound, hcheck⟩ := exists_result_of_mem hchecks hevent
    cases event with
    | limit => cases hstep
    | visit =>
      cases hstep
      obtain ⟨_, hflags, d, hd, hpath⟩ | ⟨-, hfault⟩ := hflagged
      · obtain rfl := Except.ok.inj (hcheck.symm.trans hflags)
        exact ⟨results.flatten, rfl, d, List.mem_flatten.mpr ⟨found, hfound, hd⟩, hpath⟩
      · cases hcheck.symm.trans hfault
  | error f =>
    refine .inr ⟨f, rfl, ?_⟩
    obtain ⟨event, hevent, hfault⟩ := exists_error_of_mapM hchecks
    cases event with
    | limit place =>
      rw [checkEvent_limit] at hfault
      split_ifs at hfault with hwritable
      exact .inr ⟨(Except.error.inj hfault).symm, by simpa using hwritable, place, hevent⟩
    | visit other place => exact .inl ⟨⟨other, place⟩, List.mem_filterMap.mpr ⟨_, hevent, rfl⟩, hfault⟩

/-- A step of which its rule leaves only a comment is flagged by its own check, whatever the settings and
the path, except for a conditional loop that takes a default bound which cannot be written. In a document every
such step is visited by the walk of the checks, and is flagged at each of its places, unless the checks are
stopped: by a step that was not skipped, by such a loop, or by a limit of the walk that cannot be written. -/
theorem skipped_steps_flagged (ctx : Context) :
    (∀ nested step text s s', (stepBlock ctx nested step).Runs s [.comment text] s' →
      s'.skipped = s.skipped ++ [.map step] → ∀ settings path,
        Flagged path (checkStep settings step path) ∨
        step.lacksBound settings = true ∧ checkStep settings step path = .error .integerTooLong) ∧
    ∀ document b s', (documentBlock ctx document).Runs {} b s' → ∀ step, .map step ∈ s'.skipped →
      ∃ levels, ctx.settings.walkLevels = .ok levels ∧
        (∃ path, ⟨step, path⟩ ∈ Walk.visits ((Value.map document).walkTasks (fun _ => true) levels)) ∧
        ∀ path, ⟨step, path⟩ ∈ Walk.visits ((Value.map document).walkTasks (fun _ => true) levels) →
          Flagged path (checkExtended ctx.settings (.map document)) ∨
          ∃ f, checkExtended ctx.settings (.map document) = .error f ∧
            ((∃ culprit ∈ Walk.visits ((Value.map document).walkTasks (fun _ => true) levels),
                checkStep ctx.settings culprit.step culprit.path = .error f ∧
                Uncheckable ctx.settings culprit.step ∧
                (.map culprit.step ∉ s'.skipped ∨ culprit.step.lacksBound ctx.settings = true)) ∨
              f = .integerTooLong ∧
                MeetsUnwritable ctx.settings ((Value.map document).walkTasks (fun _ => true) levels)) := by
  constructor
  · intro nested step text s s' hrun hskipped
    have hrecord : s'.skipped ≠ s.skipped := by simp [hskipped]
    exact flagged_of_runs hrun ((stepRun_of_runs hrun).isSkipped_of_comment rfl hrecord)
  · intro document b s' hrun step hmem
    obtain ⟨⟨levels, place, hlevels, hplace⟩, hflagged⟩ := flagged_of_mem_skipped hrun hmem
    refine ⟨levels, hlevels, ⟨place, hplace⟩, fun path hvisit => ?_⟩
    refine (flagged_or_error hlevels hvisit (hflagged _ path)).imp_right ?_
    rintro ⟨f, hchecks, ⟨culprit, hculprit, hfault⟩ | hlimit⟩
    · refine ⟨f, hchecks, .inl ⟨culprit, hculprit, hfault, uncheckable_of_error hfault, ?_⟩⟩
      refine or_iff_not_imp_left.mpr fun hskipped => ?_
      -- The check of a skipped step answers, or the step lacks a bound.
      obtain ⟨_, hanswer, -⟩ | ⟨hlacks, -⟩ :=
        (flagged_of_mem_skipped hrun (not_not.mp hskipped)).2 ctx.settings culprit.path
      · cases hanswer.symm.trans hfault
      · exact hlacks
    · exact ⟨f, hchecks, .inr hlimit⟩

/-- A conditional with a step of no kind and a loop without a type in it. -/
def unclearDocument : Fields :=
  oneTask [.map [(.text "logic", .map [(.text "if", .text "ready"), (.text "then", .list
    [.map [(.text "bogus", .int 1)], .map [(.text "loop", .map [(.text "times", .int 2)])]])])]]

theorem unclearDocument_steps_flagged :
    ∃ b s', (documentBlock {} unclearDocument).Runs {} b s' ∧
      (s'.skipped.filterMap fun | .map step => some (Step.kind step) | _ => none) = [.unknown, .loop] ∧
      ∀ step, .map step ∈ s'.skipped → ∃ path, Flagged path (checkExtended {} (.map unclearDocument)) := by
  have hkinds : ((documentBlock {} unclearDocument).run {}).toOption.map (fun r => r.2.skipped.filterMap
      fun | .map step => some (Step.kind step) | _ => none) = some [.unknown, .loop] := by decide +kernel
  have hanswer : ∃ found, checkExtended {} (.map unclearDocument) = .ok found := ⟨_, rfl⟩
  cases hrun : (documentBlock {} unclearDocument).run {} with
  | error e => simp [hrun, Except.toOption] at hkinds
  | ok r =>
    obtain ⟨b, s'⟩ := r
    rw [hrun] at hkinds
    refine ⟨b, s', hrun, Option.some.inj hkinds, fun step hmem => ?_⟩
    obtain ⟨_, _, ⟨path, hpath⟩, hflagged⟩ := (skipped_steps_flagged {}).2 unclearDocument b s' hrun step hmem
    obtain hflags | ⟨f, hfault, _⟩ := hflagged path hpath
    · exact ⟨path, hflags⟩
    · obtain ⟨found, hfound⟩ := hanswer
      cases hfound.symm.trans hfault

/-- A transform inside a skipped step stops the checks of a document, so that they flag neither the step
around it nor the one after it. -/
theorem uncheckable_step_stops_checks :
    ((documentBlock {} (oneTask [
        .map [(.text "logic", .map [(.text "then", .list
          [.map [(.text "data_transform", .map [(.text "operation", .list [])])]])])],
        .map [(.text "bogus", .int 1)]])).run {}).toOption.map (·.2.skipped.length) = some 2 ∧
      checkExtended {} (.map (oneTask [
        .map [(.text "logic", .map [(.text "then", .list
          [.map [(.text "data_transform", .map [(.text "operation", .list [])])]])])],
        .map [(.text "bogus", .int 1)]])) = .error .operationNotHashable := by
  refine ⟨by decide +kernel, rfl⟩

end Program

end FlowScript
