import FlowScript.Program.Document
import FlowScript.Proofs.Pass

/-!
# What a pass warns of

A flow that is nested too deeply is left out with one warning and one comment. Every other text of a pass
is told from these two by its first characters. The passes that make the text of a value, a name or an
expression do nothing but ask for needs and give such warnings.
-/
namespace FlowScript.Program

open Construct Pass

/-! ## Texts -/

/-- The warning that a flow is left out. -/
def limitWarning (settings : Settings) : String :=
  "Nesting exceeds " ++ settings.maxWalkDepth.text ++ " levels; deeper steps were skipped"

/-- The comment that stands for a flow that is left out. -/
def limitNotice : String := "Skipped: nesting limit reached"

/-- Two texts have different characters at one position. -/
def clashes (a b : List Char) : Bool := (a.zip b).any fun x => x.1 != x.2

theorem clashes_append {a b : List Char} (h : clashes a b = true) (c d : List Char) :
    clashes (a ++ c) (b ++ d) = true := by
  induction a generalizing b with
  | nil => simp [clashes] at h
  | cons x a ih =>
    cases b with
    | nil => simp [clashes] at h
    | cons y b =>
      simp only [clashes, List.cons_append, List.zip_cons_cons, List.any_cons, Bool.or_eq_true] at h ⊢
      exact h.imp_right ih

theorem not_clashes_self (a : List Char) : clashes a a = false := by
  induction a with
  | nil => rfl
  | cons x a ih => simpa [clashes] using ih

/-- A text that begins neither like the warning nor like the comment. -/
def isPlain (text : String) : Bool :=
  clashes text.toList ['N'] && clashes text.toList ['S', 'k', 'i', 'p', 'p', 'e', 'd', ':']

variable {settings : Settings} {text : String}

/-- The characters of a literal tell that it is plain. -/
theorem isPlain_ofList {chars : List Char}
    (h : (clashes chars ['N'] && clashes chars ['S', 'k', 'i', 'p', 'p', 'e', 'd', ':']) = true) :
    isPlain (String.ofList chars) = true := by
  rw [isPlain, String.toList_ofList, h]

theorem isPlain_append {front : String} (h : isPlain front = true) (rest : String) :
    isPlain (front ++ rest) = true := by
  rw [isPlain, Bool.and_eq_true] at h
  rw [isPlain, Bool.and_eq_true, String.toList_append]
  constructor
  · simpa only [List.append_nil] using clashes_append h.1 rest.toList []
  · simpa only [List.append_nil] using clashes_append h.2 rest.toList []

theorem ne_of_clashes {front rest : List Char} (h : clashes text.toList front = true)
    {other : String} (hother : other.toList = front ++ rest) : text ≠ other := by
  rintro rfl
  have hself := clashes_append h [] rest
  rw [List.append_nil, ← hother, not_clashes_self] at hself
  cases hself

theorem ne_limitWarning (h : isPlain text = true) : text ≠ limitWarning settings := by
  rw [isPlain, Bool.and_eq_true] at h
  have hparts (a b c : String) : (a ++ b ++ c).toList = a.toList ++ (b.toList ++ c.toList) := by
    rw [String.toList_append, String.toList_append, List.append_assoc]
  have hfront : "Nesting exceeds ".toList = ['N'] ++ "esting exceeds ".toList := by decide
  have hall : (limitWarning settings).toList = ['N'] ++ "esting exceeds ".toList ++ _ :=
    (hparts _ _ _).trans (congrArg (· ++ _) hfront)
  exact ne_of_clashes h.1 (hall.trans (List.append_assoc _ _ _))

theorem ne_limitNotice (h : isPlain text = true) : text ≠ limitNotice := by
  rw [isPlain, Bool.and_eq_true] at h
  have hfront : limitNotice.toList =
      ['S', 'k', 'i', 'p', 'p', 'e', 'd', ':'] ++ " nesting limit reached".toList := by decide
  exact ne_of_clashes h.2 hfront

/-! ## Passes on the side -/

namespace Pass

/-- From one state to the next nothing but needs and warnings is added, and no flow is left out. -/
structure State.Notes (s s' : State) : Prop where
  scope : s'.scope = s.scope
  groups : s'.groups = s.groups
  handed : s'.handed = s.handed
  skipped : s'.skipped = s.skipped
  warnings : ∃ more, s'.warnings = s.warnings ++ more ∧ ∀ text ∈ more, isPlain text = true

namespace State.Notes

variable {s t s' : State}

protected theorem refl (s : State) : s.Notes s := ⟨rfl, rfl, rfl, rfl, [], by simp⟩

protected theorem trans (h : s.Notes t) (h' : t.Notes s') : s.Notes s' where
  scope := h'.scope.trans h.scope
  groups := h'.groups.trans h.groups
  handed := h'.handed.trans h.handed
  skipped := h'.skipped.trans h.skipped
  warnings := by
    obtain ⟨more, hmore, hplain⟩ := h.warnings
    obtain ⟨others, hothers, hplain'⟩ := h'.warnings
    refine ⟨more ++ others, by rw [hothers, hmore, List.append_assoc], fun text htext => ?_⟩
    exact (List.mem_append.mp htext).elim (hplain text) (hplain' text)

theorem binds (h : s.Notes s') : s.Binds [] s' :=
  ⟨by simp [h.scope], h.groups, h.handed, h.skipped⟩

end State.Notes

/-- A pass that adds nothing but needs and warnings, and leaves no flow out. -/
def Noting {α : Type} (p : Pass α) : Prop :=
  ∀ ⦃s : State⦄ ⦃a : α⦄ ⦃s' : State⦄, p.Runs s a s' → s.Notes s'

namespace Noting

variable {α β : Type}

theorem quiet {p : Pass α} (hp : Noting p) : Quiet p := fun _ _ _ h => (hp h).binds

protected theorem pure (a : α) : Noting (pure a : Pass α) := by
  intro s b s' h
  obtain ⟨-, rfl⟩ := runs_pure.mp h
  exact .refl _

protected theorem bind {p : Pass α} {f : α → Pass β} (hp : Noting p) (hf : ∀ a, Noting (f a)) :
    Noting (p >>= f) := by
  intro s b s' h
  obtain ⟨a, t, h₁, h₂⟩ := runs_bind.mp h
  exact (hp h₁).trans (hf a h₂)

protected theorem lift (e : Except Fault α) : Noting (liftM e : Pass α) := by
  intro s a s' h
  obtain ⟨-, rfl⟩ := runs_lift.mp h
  exact .refl _

protected theorem get : Noting (get : Pass State) := by
  intro s a s' h
  obtain ⟨-, rfl⟩ := runs_get.mp h
  exact .refl _

protected theorem requireImport (statement : String) : Noting (requireImport statement) := by
  intro s u s' h
  obtain rfl := runs_modify.mp h
  exact ⟨rfl, rfl, rfl, rfl, [], by simp⟩

protected theorem requireHelper (helper : Helper) : Noting (requireHelper helper) := by
  intro s u s' h
  obtain rfl := runs_modify.mp h
  exact ⟨rfl, rfl, rfl, rfl, [], by simp⟩

protected theorem warn (h : isPlain text = true) : Noting (warn text) := by
  intro s u s' hrun
  obtain rfl := runs_modify.mp hrun
  exact ⟨rfl, rfl, rfl, rfl, [text], rfl, by simpa using h⟩

protected theorem ite {c : Prop} [Decidable c] {p q : Pass α} (hp : Noting p) (hq : Noting q) :
    Noting (if c then p else q) := by
  split_ifs
  · exact hp
  · exact hq

end Noting

theorem valueCode_noting (ctx : Context) (v : Value) : Noting (valueCode ctx v) := by
  unfold valueCode
  refine .bind (.lift _) fun _ => .ite (.bind (.requireImport _) fun _ => ?_) ?_
  all_goals exact .bind (.lift _) fun _ => .pure _

theorem targetName_noting (v : Value) (fallback what : String) : Noting (targetName v fallback what) := by
  unfold targetName
  split
  · exact .pure _
  · refine .ite (.bind (.lift _) fun _ => .bind (.warn ?_) fun _ => .pure _) (.pure _)
    have hfront : isPlain "Invalid " = true := isPlain_ofList rfl
    exact isPlain_append (isPlain_append (isPlain_append (isPlain_append (isPlain_append
      (isPlain_append hfront _) _) _) _) _) _

theorem collectionCode_noting (ctx : Context) (v : Value) : Noting (collectionCode ctx v) := by
  unfold collectionCode
  split
  · exact .pure _
  · split
    · exact .pure _
    · exact valueCode_noting ctx v

theorem countCode_noting (ctx : Context) (v : Value) : Noting (countCode ctx v) := by
  unfold countCode
  refine .bind (.lift _) fun n => ?_
  cases n with
  | some n => exact .lift _
  | none =>
    dsimp only
    split
    · exact .pure _
    · exact .bind (valueCode_noting ctx v) fun _ => .pure _

theorem paramsCode_noting (ctx : Context) (v : Value) : Noting (paramsCode ctx v) :=
  .ite (.pure _) (.bind (valueCode_noting ctx v) fun _ => .pure _)

theorem importCode_noting (path extension code : String) (asData : Bool) :
    Noting (importCode path extension code asData) := by
  unfold importCode jsonLoadCode yamlLoadCode
  refine .ite ?_ (.ite (.ite ?_ (.pure _)) (.ite ?_ ?_))
  · exact .bind (.requireImport _) fun _ => .bind (.requireImport _) fun _ => .pure _
  · exact .bind (.requireImport _) fun _ => .bind (.requireImport _) fun _ => .pure _
  · exact .bind (.requireHelper _) fun _ => .pure _
  · have hfront : isPlain "Import '" = true := isPlain_ofList rfl
    exact .ite (.bind (.warn (isPlain_append (isPlain_append hfront _) _)) fun _ => .pure _) (.pure _)

theorem importName_noting (given : Option String) : Noting (importName given) := by
  cases given with
  | none => exact .pure _
  | some name => exact .bind (targetName_noting _ _ _) fun _ => .pure _

theorem payloadArgument_noting (ctx : Context) (v : Value) (what : String) :
    Noting (payloadArgument ctx v what) := by
  unfold payloadArgument payloadCode
  refine .ite (.pure _) (.bind (.bind (.lift _) fun _ => .bind (.lift _) fun _ => ?_) fun _ => .pure _)
  refine .ite (.bind (.lift _) fun _ => .bind (.warn ?_) fun _ => valueCode_noting ctx v) (valueCode_noting ctx v)
  have hfront : isPlain "HTTP " = true := isPlain_ofList rfl
  exact isPlain_append (isPlain_append (isPlain_append (isPlain_append hfront _) _) _) _

theorem requestCode_noting (ctx : Context) (call : Call) : Noting (requestCode ctx call) :=
  .bind (.requireHelper _) fun _ => .bind (valueCode_noting ctx _) fun _ =>
    .bind (payloadArgument_noting ctx _ _) fun _ => .bind (payloadArgument_noting ctx _ _) fun _ => .pure _

theorem commandCode_noting (ctx : Context) (call : Call) : Noting (commandCode ctx call) :=
  .bind (.requireImport _) fun _ => .bind (valueCode_noting ctx _) fun _ => .pure _

theorem expressionCode_noting (ctx : Context) (target : Option String) (v : Value) :
    Noting (expressionCode ctx target v) := by
  unfold expressionCode
  split
  · exact .ite (.bind (.requireImport _) fun _ => .bind .get fun _ => .pure _) (.bind .get fun _ => .pure _)
  · exact valueCode_noting ctx _

theorem fieldLiteral_noting (v : Value) : Noting (fieldLiteral v) :=
  .ite (.pure _) (.bind (.lift _) fun _ => .pure _)

theorem stageCode_noting (ctx : Context) (stage : Stage) (data : String) :
    Noting (stageCode ctx stage data) := by
  have unique : Noting (uniqueCode stage data) := by
    refine .bind (.requireHelper _) fun _ => ?_
    split
    · exact .pure _
    · exact .pure _
    · exact .bind (fieldLiteral_noting _) fun _ => .pure _
  have bound (v : Value) : Noting (boundCode ctx v) := .ite (.pure _) (valueCode_noting ctx v)
  unfold stageCode
  cases stage.operation with
  | filter =>
    have hwarning : isPlain "filter operation without a condition keeps every item" = true :=
      isPlain_ofList rfl
    exact .ite (.bind (.warn hwarning) fun _ => .pure _)
      (.bind (expressionCode_noting ctx _ _) fun _ => .pure _)
  | sort =>
    have hfront : isPlain "Unknown sort order " = true := isPlain_ofList rfl
    refine .bind (.requireHelper _) fun _ => .bind (.lift _) fun _ => .ite
      (.bind (.warn (isPlain_append (isPlain_append hfront _) _)) fun _ => ?_) ?_
    all_goals exact .bind (fieldLiteral_noting _) fun _ => .pure _
  | map =>
    have hwarning :
        isPlain "map operation without a template or expression returns items unchanged" = true :=
        isPlain_ofList rfl
    refine .ite (.bind (valueCode_noting ctx _) fun _ => .pure _)
      (.ite (.bind (.warn hwarning) fun _ => .pure _) ?_)
    exact .bind (expressionCode_noting ctx _ _) fun _ => .pure _
  | reduce =>
    have hwarning : isPlain "reduce operation without a reducer expression; using 'acc'" = true :=
      isPlain_ofList rfl
    refine .bind (.requireImport _) fun _ => .ite (.bind (.warn hwarning) fun _ => ?_) ?_
    all_goals
      exact .bind (expressionCode_noting ctx _ _) fun _ => .bind (valueCode_noting ctx _) fun _ => .pure _
  | slice => exact .bind (bound _) fun _ => .bind (bound _) fun _ => .pure _
  | unique => exact unique
  | distinct => exact unique
  | flatten => exact .bind (.requireHelper _) fun _ => .bind (valueCode_noting ctx _) fun _ => .pure _
  | groupBy => exact .bind (.requireHelper _) fun _ => .bind (fieldLiteral_noting _) fun _ => .pure _

theorem sourceCode_noting (ctx : Context) (source : Value) (output : String) :
    Noting (sourceCode ctx source output) := by
  have hfront : isPlain "data_transform '" = true := isPlain_ofList rfl
  exact .ite (.bind (.warn (isPlain_append (isPlain_append hfront _) _)) fun _ => .pure _)
    (collectionCode_noting ctx source)

theorem namedArguments_noting (ctx : Context) (options : Fields) : Noting (namedArguments ctx options) := by
  induction options with
  | nil => exact .pure _
  | cons option rest ih =>
    have hfront : isPlain "Skipped action option " = true := isPlain_ofList rfl
    refine .bind (.lift _) fun _ => .ite ?_
      (.bind (.warn (isPlain_append (isPlain_append hfront _) _)) fun _ => ih)
    exact .bind (valueCode_noting ctx _) fun _ => .bind ih fun _ => .pure _

theorem arguments_noting (ctx : Context) (invocation : Invocation) : Noting (arguments ctx invocation) :=
  .ite (namedArguments_noting ctx _)
    (.bind (valueCode_noting ctx _) fun _ => .bind (namedArguments_noting ctx _) fun _ => .pure _)

theorem outputBlock_noting (ctx : Context) (output : Value) : Noting (outputBlock ctx output) := by
  have hneeds : isPlain "Task output needs 'filePath' and 'dataName'; it was skipped" = true :=
    isPlain_ofList rfl
  have hfront : isPlain "Task output dataName " = true := isPlain_ofList rfl
  unfold outputBlock
  refine .ite (.pure _) (.ite (.bind (.warn hneeds) fun _ => .pure _) ?_)
  dsimp only
  split
  · refine .bind (.lift _) fun _ => .bind (.warn ?_) fun _ => .pure _
    exact isPlain_append (isPlain_append hfront _) _
  · exact .bind (.requireHelper _) fun _ => .bind (valueCode_noting ctx _) fun _ => .pure _

end Pass

end FlowScript.Program
