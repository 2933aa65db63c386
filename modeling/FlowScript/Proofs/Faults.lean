import Mathlib.Algebra.Group.Nat.Defs
import FlowScript.Proofs.Detected
import FlowScript.Program.Document

/-!
# How a pass may end

Two things are followed through every rule at once: which import statements a pass asks for, and which
faults may stop it. The statements are few and fixed. The faults are those that the values of a document and
the settings cause, so a pass over a document whose values cause only expected faults ends with an expected
fault, if with one at all.
-/
namespace FlowScript

open Construct

variable {F : Fault → Prop}

/-! ## Faults that values cause -/

/-- The number of rounds that a loop gives, if its kind has one. -/
def Construct.Loop.rounds (loop : Loop) : Value :=
  if loop.kind = some "while" then loop.maxIterations
  else if loop.kind = some "repeat" then loop.count
  else .null

/-- The faults that a mapping itself causes where it is compiled as a step are expected. -/
structure Step.Admits (F : Fault → Prop) (step : Step) : Prop where
  keys : ∀ e ∈ step, e.1.isWritable = false → F .integerTooLong
  quoted : ∀ f, (Value.map step).json = .error f → F f
  operation : ∀ inner, (step.get "data_transform").fields? = some inner →
    (inner.get "operation").isHashable = false → F .operationNotHashable
  rounds : ∀ loop, Loop.read? step = some loop → ∀ f, Program.wholeCount? loop.rounds = .error f → F f
  pause : ∀ f, Program.pauseSeconds (step.get "sleep") = .error f → F f

namespace Value

/-- The faults that a value itself causes are expected. -/
structure Admits (F : Fault → Prop) (v : Value) : Prop where
  quoted : ∀ f, v.json = .error f → F f
  written : v.isWritable = false → F .integerTooLong
  measured : maxNesting < v.nestingDepth → F .tooDeep
  step : ∀ es, v.fields? = some es → Step.Admits F es

/-- The faults that a value and all values inside it cause are expected. -/
def Covers (F : Fault → Prop) (v : Value) : Prop := ∀ depth w, v.Inside depth w → w.Admits F

end Value

/-- The keys of a mapping can be written, and what its values cause is expected. -/
def Fields.Covers (F : Fault → Prop) (es : Fields) : Prop :=
  ∀ e ∈ es, (e.1.isWritable = false → F .integerTooLong) ∧ e.2.Covers F

/-- The faults that a step and all values inside it cause are expected. -/
structure Step.Covers (F : Fault → Prop) (step : Step) : Prop where
  admits : step.Admits F
  fields : Fields.Covers F step

namespace Value

variable {v : Value}

theorem Covers.admits (h : v.Covers F) : v.Admits F := h 0 v (.self v)

theorem Covers.inside (h : v.Covers F) {depth : Nat} {w : Value} (hw : v.Inside depth w) : w.Covers F :=
  fun _ u hu => h _ u (hw.trans hu)

theorem Covers.item (h : v.Covers F) {vs : List Value} (hitems : v.items? = some vs) {w : Value} (hw : w ∈ vs) :
    w.Covers F :=
  h.inside (inside_of_mem_items hitems hw)

theorem Covers.mem_items (h : v.Covers F) {w : Value} (hw : w ∈ v.items) : w.Covers F := by
  unfold items at hw
  cases hitems : v.items? with
  | none => simp [hitems] at hw
  | some vs =>
    rw [hitems, Option.getD_some] at hw
    exact h.item hitems hw

theorem Covers.step (h : v.Covers F) {es : Fields} (hfields : v.fields? = some es) : Step.Covers F es where
  admits := h.admits.step es hfields
  fields e he := ⟨(h.admits.step es hfields).keys e he, h.inside (.entry hfields he (.self e.2))⟩

/-- A value that can be quoted and written and has nothing inside causes no fault. -/
theorem covers_of_leaf (hitems : v.items? = none) (hfields : v.fields? = none) (hjson : ∃ text, v.json = .ok text)
    (hwritable : v.isWritable = true) (hdepth : v.nestingDepth = 0) : v.Covers F := by
  intro depth w hw
  cases hw with
  | item h => cases hitems.symm.trans h
  | entry h => cases hfields.symm.trans h
  | self =>
    obtain ⟨text, htext⟩ := hjson
    refine ⟨fun f hf => ?_, fun hf => ?_, fun hdeep => ?_, fun es hes => ?_⟩
    · cases htext.symm.trans hf
    · cases hwritable.symm.trans hf
    · exact absurd hdeep (by rw [hdepth]; exact Nat.not_lt_zero _)
    · cases hfields.symm.trans hes

theorem covers_null : Value.null.Covers F :=
  covers_of_leaf rfl rfl ⟨_, by rw [json]⟩ (by simp [isWritable]) (by simp [nestingDepth])

theorem covers_text (s : String) : (Value.text s).Covers F :=
  covers_of_leaf rfl rfl ⟨_, by rw [json]⟩ (by simp [isWritable]) (by simp [nestingDepth])

theorem covers_int {n : Int} (h : Number.isWritable n = true) : (Value.int n).Covers F :=
  covers_of_leaf rfl rfl ⟨_, by rw [json, writtenInt, if_pos h]⟩ (by rw [isWritable, h]) (by simp [nestingDepth])

theorem Covers.orElse {w : Value} (h : v.Covers F) (hw : w.Covers F) : (v.orElse w).Covers F := by
  unfold Value.orElse
  split_ifs
  · exact h
  · exact hw

end Value

namespace Fields

variable {es more : Fields}

theorem Covers.get? (h : es.Covers F) {name : String} {v : Value} (hv : es.get? name = some v) : v.Covers F := by
  obtain ⟨key, -, hmem⟩ := exists_mem_of_get? hv
  exact (h _ hmem).2

theorem Covers.get (h : es.Covers F) (name : String) : (es.get name).Covers F := by
  unfold Fields.get
  cases hv : es.get? name with
  | none => exact Value.covers_null
  | some v => exact h.get? hv

theorem Covers.firstOf? (h : es.Covers F) {names : List String} {v : Value} (hv : es.firstOf? names = some v) :
    v.Covers F := by
  induction names with
  | nil => cases hv
  | cons name names ih =>
    rw [Fields.firstOf?] at hv
    split_ifs at hv
    · exact ih hv
    · obtain rfl := Option.some.inj hv
      exact h.get name

theorem Covers.firstOf?_getD (h : es.Covers F) (names : List String) {fallback : Value} (hf : fallback.Covers F) :
    ((es.firstOf? names).getD fallback).Covers F := by
  cases hv : es.firstOf? names with
  | none => exact hf
  | some v => exact h.firstOf? hv

theorem Covers.firstOf (h : es.Covers F) (names : List String) : (es.firstOf names).Covers F :=
  h.firstOf?_getD names Value.covers_null

theorem Covers.subset (h : es.Covers F) (hsub : more ⊆ es) : more.Covers F := fun e he => h e (hsub he)

theorem Covers.without (h : es.Covers F) (names : List String) : (es.without names).Covers F :=
  h.subset (List.filter_subset_self _)

theorem Covers.append (h : es.Covers F) (hmore : more.Covers F) : Fields.Covers F (es ++ more) :=
  List.forall_mem_append.mpr ⟨h, hmore⟩

theorem Covers.insert (h : es.Covers F) {key v : Value} (hkey : key.isWritable = false → F .integerTooLong)
    (hv : v.Covers F) : (es.insert key v).Covers F := by
  induction es with
  | nil => exact List.forall_mem_singleton.mpr ⟨hkey, hv⟩
  | cons e rest ih =>
    obtain ⟨hfirst, hrest⟩ := List.forall_mem_cons.mp h
    obtain ⟨k, old⟩ := e
    rw [Fields.insert]
    split_ifs
    · exact List.forall_mem_cons.mpr ⟨⟨hfirst.1, hv⟩, hrest⟩
    · exact List.forall_mem_cons.mpr ⟨hfirst, ih hrest⟩

theorem Covers.insertAll (h : es.Covers F) (hmore : more.Covers F) : (es.insertAll more).Covers F := by
  unfold Fields.insertAll
  induction more generalizing es with
  | nil => exact h
  | cons e rest ih =>
    obtain ⟨hfirst, hrest⟩ := List.forall_mem_cons.mp hmore
    exact ih (h.insert hfirst.1 hfirst.2) hrest

/-- A mapping can be written if its keys and values can. -/
theorem Covers.isWritable (h : es.Covers F) (hes : (Value.map es).isWritable = false) : F .integerTooLong := by
  by_contra hnot
  have hall : Value.entriesWritable es = true := by
    clear hes
    induction es with
    | nil => rw [Value.entriesWritable]
    | cons e rest ih =>
      obtain ⟨hfirst, hrest⟩ := List.forall_mem_cons.mp h
      obtain ⟨key, v⟩ := e
      have hkey : key.isWritable = true := by
        by_contra hkey
        exact hnot (hfirst.1 (by simpa using hkey))
      have hv : v.isWritable = true := by
        by_contra hv
        exact hnot (hfirst.2.admits.written (by simpa using hv))
      rw [Value.entriesWritable, hkey, hv, ih hrest]
      rfl
  rw [Value.isWritable, hall] at hes
  cases hes

end Fields

theorem Value.Covers.field {v : Value} (h : v.Covers F) (name : String) : (v.field name).Covers F := by
  unfold Value.field
  split
  · rename_i es hes
    exact (h.step hes).fields.get name
  · exact Value.covers_null

/-! ## Flows inside values -/

/-- The faults that the entries of a flow cause are expected. -/
def Flow.Covers (F : Fault → Prop) (flow : Flow) : Prop := ∀ entry ∈ flow, entry.Covers F

namespace Flow

variable {flow : Flow}

theorem covers_nil : Flow.Covers F [] := by
  intro entry hentry
  cases hentry

theorem covers_items {v : Value} (h : v.Covers F) : Flow.Covers F v.items := fun _ hentry => h.mem_items hentry

theorem covers_fieldsFlow {es : Fields} (h : es.Covers F) (hflow : es.flow? = some flow) : flow.Covers F := by
  intro entry hentry
  unfold Fields.flow? at hflow
  split_ifs at hflow
  · exact (h.get "steps").item hflow hentry
  · exact (h.get "flow").item hflow hentry

theorem covers_flow {v : Value} (h : v.Covers F) (hflow : v.flow? = some flow) : flow.Covers F := by
  unfold Value.flow? at hflow
  split at hflow
  · rename_i vs hitems
    obtain rfl := Option.some.inj hflow
    exact fun entry hentry => h.item hitems hentry
  · obtain ⟨es, hfields, hflow⟩ := Option.bind_eq_some_iff.mp hflow
    exact covers_fieldsFlow (h.step hfields).fields hflow

theorem covers_fieldsFlow_getD {es : Fields} (h : es.Covers F) : Flow.Covers F (es.flow?.getD []) := by
  cases hflow : es.flow? with
  | none => exact covers_nil
  | some flow => exact covers_fieldsFlow h hflow

theorem covers_getD {v : Value} (h : v.Covers F) : Flow.Covers F (v.flow?.getD []) := by
  cases hflow : v.flow? with
  | none => exact covers_nil
  | some flow => exact covers_flow h hflow

/-- The steps that a walk of a flow comes to are inside it. -/
theorem Covers.mem_steps (h : flow.Covers F) {enters : Step → Bool} {levels : Nat} {step : Step}
    (hstep : step ∈ flow.steps enters levels) : step.Covers F := by
  have hitems : (Value.list flow).items? = some flow := rfl
  obtain ⟨depth, -, -, v, hv, hinside⟩ := inside_of_mem_steps hitems (.self _) hstep
  cases hinside with
  | item hitems hmem hbelow =>
    obtain rfl := Option.some.inj hitems
    exact ((h _ hmem).inside hbelow).step hv
  | entry hfields => cases hfields
  | self => cases hv

end Flow

/-! ## Results -/

section Answers

variable {α β : Type} {P : α → Prop} {e : Except Fault α}

/-- A result has a property, or is missing because of an expected fault. -/
structure Answers (F : Fault → Prop) (P : α → Prop) (e : Except Fault α) : Prop where
  result : ∀ ⦃a⦄, e = .ok a → P a
  fault : ∀ ⦃f⦄, e = .error f → F f

namespace Answers

theorem ok {a : α} (h : P a) : Answers F P (.ok a) := ⟨fun _ hb => Except.ok.inj hb ▸ h, fun _ hf => nomatch hf⟩

theorem error {f : Fault} (h : F f) : Answers F P (.error f) :=
  ⟨fun _ hb => (nomatch hb), fun _ hf => Except.error.inj hf ▸ h⟩

/-- Of a result nothing needs to be known but where it comes from. -/
theorem of_faults (h : ∀ f, e = .error f → F f) : Answers F (fun a => e = .ok a) e := ⟨fun _ ha => ha, h⟩

protected theorem pure {a : α} (h : P a) : Answers F P (pure a) := .ok h

protected theorem bind {Q : β → Prop} {g : α → Except Fault β} (he : Answers F P e)
    (hg : ∀ a, P a → Answers F Q (g a)) : Answers F Q (e >>= g) := by
  cases e with
  | ok a => exact hg a (he.result rfl)
  | error f => exact .error (he.fault rfl)

theorem mapM {Q : β → Prop} {g : α → Except Fault β} {xs : List α} (hg : ∀ x ∈ xs, Answers F Q (g x)) :
    Answers F (fun ys => ∀ y ∈ ys, Q y) (xs.mapM g) := by
  induction xs with
  | nil => exact .ok (List.forall_mem_nil _)
  | cons x rest ih =>
    rw [List.mapM_cons]
    refine .bind (hg x List.mem_cons_self) fun y hy => ?_
    refine .bind (ih fun x hx => hg x (List.mem_cons_of_mem _ hx)) fun ys hys => .pure ?_
    exact List.forall_mem_cons.mpr ⟨hy, hys⟩

theorem option {Q : β → Prop} {g : α → Except Fault β} {o : Option α} (hg : ∀ a ∈ o, Answers F Q (g a)) :
    Answers F (fun found => ∀ b ∈ found, Q b) (o.mapM g) := by
  cases o with
  | none => exact .ok (by simp)
  | some a =>
    refine .bind (hg a rfl) fun b hb => .ok ?_
    simpa using hb

end Answers

end Answers

namespace Value

variable {v : Value}

theorem checkWritable_answers (h : v.isWritable = false → F .integerTooLong) :
    Answers F (fun _ => v.isWritable = true) v.checkWritable := by
  unfold checkWritable
  split_ifs with hv
  · exact .ok hv
  · exact .error (h (by simpa using hv))

theorem shown_answers (h : v.isWritable = false → F .integerTooLong) : Answers F (fun _ => True) v.shown :=
  .bind (checkWritable_answers h) fun _ _ => .pure trivial

theorem shown_answers_of_writable (h : v.isWritable = true) : Answers F (fun _ => True) v.shown :=
  shown_answers fun hlong => by cases h.symm.trans hlong

theorem spelled_answers (h : v.isWritable = false → F .integerTooLong) : Answers F (fun _ => True) v.spelled :=
  .bind (checkWritable_answers h) fun _ _ => .pure trivial

end Value

/-! ## Settings -/

/-- Whether a limit can be compared with. -/
def Limit.isNumber (limit : Limit) : Bool :=
  match limit.given with
  | .int _ | .bool _ | .float .. => true
  | _ => false

theorem Limit.rounded_answers {limit : Limit} (h : limit.isNumber = false → F .limitNotANumber)
    (round : Number.Exact → Int) : Answers F (fun _ => True) (limit.rounded round) := by
  obtain ⟨given⟩ := limit
  cases given with
  | int | bool => exact .ok trivial
  | float x =>
    simp only [Limit.rounded]
    split <;> exact .ok trivial
  | _ => exact .error (h rfl)

theorem Limit.isPassedBy_answers {limit : Limit} (h : limit.isNumber = false → F .limitNotANumber) (v : Value) :
    Answers F (fun _ => True) (limit.isPassedBy v) := by
  obtain ⟨given⟩ := limit
  cases given with
  | int | bool | float => exact .ok trivial
  | _ => exact .error (h rfl)

/-- The faults that settings cause are expected. -/
structure Settings.Admits (F : Fault → Prop) (settings : Settings) : Prop where
  walk : settings.maxWalkDepth.isNumber = false → F .limitNotANumber
  resolve : settings.maxResolveDepth.isNumber = false → F .limitNotANumber
  rounds : settings.defaultMaxIterations.isWritable = false → F .integerTooLong
  walkShown : settings.maxWalkDepth.given.isWritable = false → F .integerTooLong
  resolveShown : settings.maxResolveDepth.given.isWritable = false → F .integerTooLong

/-! ## Numbers that are written -/

namespace Number

theorem isWritable_of_lt {n : Int} {k : Nat} (h : n.natAbs < 10 ^ k) (hk : k ≤ maxDigits) :
    isWritable n = true := by
  unfold isWritable
  generalize maxDigits = most at hk
  exact decide_eq_true (Nat.lt_of_lt_of_le h (Nat.pow_le_pow_right (by decide) hk))

/-- The integers that stand in for what a document leaves out are written with at most four digits. -/
theorem isWritable_of_small {n : Int} (h : n.natAbs < 10 ^ 4) : isWritable n = true :=
  isWritable_of_lt h (by decide)

/-- The mantissa and the exponent of a double are bounded. -/
theorem decode_bounds {x : Float} {v : Exact} (h : decode x = .finite v) :
    v.mantissa < 2 ^ 53 ∧ v.exponent ≤ 971 := by
  have hfraction : (x.toBits &&& 0xFFFFFFFFFFFFF).toNat ≤ 0xFFFFFFFFFFFFF := by
    rw [UInt64.toNat_and]
    exact Nat.and_le_right
  have hfield : ((x.toBits >>> 52) &&& 0x7FF).toNat ≤ 0x7FF := by
    rw [UInt64.toNat_and]
    exact Nat.and_le_right
  unfold decode at h
  dsimp only at h
  generalize (x.toBits &&& 0xFFFFFFFFFFFFF).toNat = fraction at h hfraction
  generalize ((x.toBits >>> 52) &&& 0x7FF).toNat = field at h hfield
  split_ifs at h with hspecial hinf hzero
  · obtain rfl := Decoded.finite.inj h
    exact ⟨by dsimp only; omega, by dsimp only; omega⟩
  · obtain rfl := Decoded.finite.inj h
    have hne : field ≠ 0x7FF := by simpa using hspecial
    refine ⟨?_, by dsimp only; omega⟩
    have hpow : Nat.pow 2 52 = 4503599627370496 := by decide
    dsimp only
    omega

theorem truncate_isWritable {x : Float} {v : Exact} (h : decode x = .finite v) : isWritable v.truncate = true := by
  obtain ⟨hmantissa, hexponent⟩ := decode_bounds h
  have hnumerator : v.numerator < 10 ^ (53 + v.exponent.toNat) := calc
    v.numerator < 2 ^ 53 * 2 ^ v.exponent.toNat := Nat.mul_lt_mul_of_pos_right hmantissa (Nat.two_pow_pos _)
    _ = 2 ^ (53 + v.exponent.toNat) := (Nat.pow_add 2 53 _).symm
    _ ≤ 10 ^ (53 + v.exponent.toNat) := Nat.pow_le_pow_left (by decide) _
  have hsigned : v.signed.natAbs = v.numerator := by
    unfold Exact.signed
    split_ifs <;> omega
  have hle : v.truncate.natAbs ≤ v.numerator := by
    rw [Exact.truncate, Int.natAbs_tdiv, hsigned]
    exact Nat.div_le_self _ _
  exact isWritable_of_lt (Nat.lt_of_le_of_lt hle hnumerator) (by unfold maxDigits; omega)

end Number

namespace Program

open Pass

/-! ## Passes -/

/-- The import statements that rules ask for. -/
def standardStatements : List String :=
  ["import os", "import asyncio", "import json", "import yaml", "import subprocess", "import functools",
    "from pathlib import Path"]

variable {α β : Type}

/-- The end of every run of a pass: it has asked for standard statements only, or its fault is expected. -/
structure Pass.Ends (F : Fault → Prop) (p : Pass α) : Prop where
  imports : ∀ ⦃s : State⦄ ⦃a : α⦄ ⦃s' : State⦄, p.Runs s a s' →
    ∀ statement ∈ s'.needs.imports, statement ∈ s.needs.imports ∨ statement ∈ standardStatements
  faults : ∀ ⦃s : State⦄ ⦃f : Fault⦄, p.run s = .error f → F f

theorem run_bind_eq_error {p : Pass α} {g : α → Pass β} {s : State} {f : Fault} (h : (p >>= g).run s = .error f) :
    p.run s = .error f ∨ ∃ a t, p.Runs s a t ∧ (g a).run t = .error f := by
  rw [StateT.run_bind] at h
  cases hp : p.run s with
  | error e =>
    rw [hp] at h
    exact .inl (congrArg _ (Except.error.inj h))
  | ok r =>
    rw [hp] at h
    exact .inr ⟨r.1, r.2, hp, h⟩

namespace Pass.Ends

variable {p q : Pass α}

protected theorem modify {g : State → State} (h : ∀ s, (g s).needs.imports = s.needs.imports) :
    Ends F (modify g : Pass PUnit) where
  imports s u s' hrun statement hmem := by
    obtain rfl := runs_modify.mp hrun
    rw [h] at hmem
    exact .inl hmem
  faults s f hrun := nomatch hrun

protected theorem pure (a : α) : Ends F (pure a) where
  imports s b s' hrun statement hmem := by
    obtain ⟨-, rfl⟩ := runs_pure.mp hrun
    exact .inl hmem
  faults s f hrun := nomatch hrun

protected theorem get : Ends F (get : Pass State) where
  imports s a s' hrun statement hmem := by
    obtain ⟨-, rfl⟩ := runs_get.mp hrun
    exact .inl hmem
  faults s f hrun := nomatch hrun

protected theorem lift {P : α → Prop} {e : Except Fault α} (h : Answers F P e) : Ends F (liftM e : Pass α) where
  imports s a s' hrun statement hmem := by
    obtain ⟨-, rfl⟩ := runs_lift.mp hrun
    exact .inl hmem
  faults s f hrun := by
    cases e with
    | ok a => cases hrun
    | error e => exact h.fault (congrArg _ (Except.error.inj hrun))

protected theorem bind {g : α → Pass β} (hp : Ends F p) (hg : ∀ a, Ends F (g a)) : Ends F (p >>= g) where
  imports s b s' hrun statement hmem := by
    obtain ⟨a, t, h₁, h₂⟩ := runs_bind.mp hrun
    obtain hmem | hmem := (hg a).imports h₂ statement hmem
    · exact hp.imports h₁ statement hmem
    · exact .inr hmem
  faults s f hrun := by
    obtain hrun | ⟨a, t, -, hrun⟩ := run_bind_eq_error hrun
    · exact hp.faults hrun
    · exact (hg a).faults hrun

/-- What is known of a result may be used in what follows. -/
protected theorem lift_bind {P : α → Prop} {e : Except Fault α} {g : α → Pass β} (he : Answers F P e)
    (hg : ∀ a, P a → Ends F (g a)) : Ends F (liftM e >>= g) := by
  cases e with
  | ok a => exact hg a (he.result rfl)
  | error f => exact ⟨fun s b s' hrun => (nomatch hrun), fun s f' hrun => Except.error.inj hrun ▸ he.fault rfl⟩

protected theorem ite {c : Prop} [Decidable c] (hp : Ends F p) (hq : Ends F q) : Ends F (if c then p else q) := by
  split_ifs
  · exact hp
  · exact hq

protected theorem warn (message : String) : Ends F (warn message) := .modify fun _ => rfl

protected theorem declare (name : String) : Ends F (declare name) := .modify fun _ => rfl

protected theorem requireHelper (helper : Helper) : Ends F (requireHelper helper) := by
  refine .modify fun s => ?_
  dsimp only
  unfold Needs.addHelper
  split_ifs <;> rfl

protected theorem requireImport {statement : String} (h : statement ∈ standardStatements) :
    Ends F (requireImport statement) where
  imports s u s' hrun other hmem := by
    obtain rfl := runs_modify.mp hrun
    dsimp only at hmem
    unfold Needs.addImport at hmem
    split_ifs at hmem
    · exact .inl hmem
    · rcases List.mem_append.mp hmem with hmem | hmem
      · exact .inl hmem
      · exact .inr (List.mem_singleton.mp hmem ▸ h)
  faults s f hrun := nomatch hrun

protected theorem each {g : α → Pass Block} {entries : List α} (hg : ∀ entry ∈ entries, Ends F (g entry)) :
    Ends F (each g entries) := by
  induction entries with
  | nil => exact .pure _
  | cons entry rest ih =>
    exact .bind (hg entry List.mem_cons_self) fun _ =>
      .bind (ih fun entry hentry => hg entry (List.mem_cons_of_mem _ hentry)) fun _ => .pure _

end Pass.Ends

/-! ## Values and names -/

section Rules

variable {ctx : Context}

theorem targetName_ends {v : Value} (h : v.Covers F) (fallback what : String) :
    Ends F (targetName v fallback what) := by
  unfold targetName
  split
  · exact .pure _
  · refine .ite (.bind (.lift (v.spelled_answers h.admits.written)) fun _ => ?_) (.pure _)
    exact .bind (.warn _) fun _ => .pure _

theorem jsonOf_ends {entry : Value} (h : ∀ f, entry.json = .error f → F f) : Ends F (jsonOf entry) :=
  .lift (.of_faults h)

theorem skip_ends {entry : Value} (h : ∀ f, entry.json = .error f → F f) (reason : String) :
    Ends F (skip reason entry) :=
  .bind (jsonOf_ends h) fun _ => .bind (.warn _) fun _ => .bind (.modify fun _ => rfl) fun _ => .pure _

variable (hset : ctx.settings.Admits F)

include hset

theorem valueCode_ends {v : Value} (h : v.isWritable = false → F .integerTooLong) : Ends F (valueCode ctx v) := by
  have hmost : Ends F (liftM ctx.settings.maxResolveDepth.most : Pass Int) :=
    .lift (Limit.rounded_answers hset.resolve _)
  refine .bind (.lift (v.checkWritable_answers h)) fun _ => .ite ?_ ?_
  · exact .bind (.requireImport (by simp [standardStatements])) fun _ => .bind hmost fun _ => .pure _
  · exact .bind hmost fun _ => .pure _

theorem collectionCode_ends {v : Value} (h : v.Covers F) : Ends F (collectionCode ctx v) := by
  unfold collectionCode
  split
  · exact .pure _
  · split
    · exact .pure _
    · exact valueCode_ends hset h.admits.written

theorem paramsCode_ends {params : Value} (h : params.Covers F) : Ends F (paramsCode ctx params) :=
  .ite (.pure _) (.bind (valueCode_ends hset h.admits.written) fun _ => .pure _)

omit hset in
/-- A count that is a float was rounded, and is never too long. -/
theorem writtenInt_answers {v : Value} (h : v.Covers F) {n : Int} (hn : wholeCount? v = .ok (some n)) :
    Answers F (fun _ => True) (Value.writtenInt n) := by
  have hwritten (hn : Number.isWritable n = false → F .integerTooLong) :
      Answers F (fun _ => True) (Value.writtenInt n) := by
    unfold Value.writtenInt
    cases hlong : Number.isWritable n with
    | true => exact .ok trivial
    | false => exact .error (hn hlong)
  cases v with
  | int m =>
    obtain rfl := Option.some.inj (Except.ok.inj hn)
    refine hwritten fun hlong => h.admits.written ?_
    rw [Value.isWritable, hlong]
  | float x origin =>
    unfold wholeCount? at hn
    dsimp only at hn
    split at hn
    · cases hn
    · cases hn
    · rename_i rounded hrounded
      obtain rfl := Option.some.inj (Except.ok.inj hn)
      exact hwritten fun hlong => by cases (Number.truncate_isWritable hrounded).symm.trans hlong
  | _ => cases hn

theorem countCode_ends {v : Value} (h : v.Covers F) (hcount : ∀ f, wholeCount? v = .error f → F f) :
    Ends F (countCode ctx v) := by
  unfold countCode
  refine .lift_bind (.of_faults hcount) fun count hc => ?_
  cases count with
  | some n => exact .lift (writtenInt_answers h hc)
  | none =>
    dsimp only
    split
    · exact .pure _
    · exact .bind (valueCode_ends hset h.admits.written) fun _ => .pure _

/-! ## Transforms -/

/-- The faults that the argument and the parameters of a stage cause are expected. -/
structure Stage.Covers (F : Fault → Prop) (stage : Stage) : Prop where
  argument : stage.argument.Covers F
  params : stage.params.Covers F

omit hset in
theorem Stage.Covers.argumentOr {stage : Stage} (h : Stage.Covers F stage) (names : List String) :
    (stage.argumentOr names).Covers F := by
  unfold Construct.Stage.argumentOr
  split_ifs
  · exact h.params.firstOf names
  · exact h.argument

omit hset in
theorem Stage.Covers.keyField {stage : Stage} (h : Stage.Covers F stage) : stage.keyField.Covers F := by
  unfold Construct.Stage.keyField
  split
  · exact h.params.firstOf _
  · exact h.params.firstOf _
  · exact h.argument

theorem expressionCode_ends (target : Option String) {v : Value} (h : v.Covers F) :
    Ends F (expressionCode ctx target v) := by
  unfold expressionCode
  split
  · refine .ite (.bind (.requireImport (by simp [standardStatements])) fun _ => ?_) ?_
    · exact .bind .get fun _ => .pure _
    · exact .bind .get fun _ => .pure _
  · exact valueCode_ends hset h.admits.written

omit hset in
theorem fieldLiteral_ends {v : Value} (h : v.Covers F) : Ends F (fieldLiteral v) :=
  .ite (.pure _) (.bind (.lift (v.shown_answers h.admits.written)) fun _ => .pure _)

omit hset in
theorem sortOrder_answers {stage : Stage} (h : Stage.Covers F stage) :
    Answers F (fun sorting => sorting.field.Covers F) (SortOrder.ofStage stage) := by
  have horder : ((stage.params.get "order").orElse (.text "asc")).Covers F :=
    (h.params.get _).orElse (Value.covers_text _)
  refine .bind (Value.shown_answers horder.admits.written) fun order _ => ?_
  split
  · split
    · exact .pure (h.params.firstOf _)
    · exact .pure (Value.covers_text _)
    · exact .pure (Value.covers_text _)
  · exact .pure (h.params.firstOf _)

omit hset in
theorem span_covers {stage : Stage} (h : Stage.Covers F stage) :
    (Span.ofStage stage).start.Covers F ∧ (Span.ofStage stage).stop.Covers F := by
  unfold Span.ofStage
  split
  · rename_i vs hitems
    have hitem (i : Nat) : (vs[i]?.getD .null).Covers F := by
      cases hv : vs[i]? with
      | none => exact Value.covers_null
      | some v => exact h.argument.item hitems (List.mem_of_getElem? hv)
    exact ⟨hitem 0, hitem 1⟩
  · exact ⟨h.params.get _, h.params.get _⟩

theorem mapCode_ends {stage : Stage} (h : Stage.Covers F stage) (data : String) :
    Ends F (mapCode ctx stage data) := by
  have hexpression : (if stage.argument.isNull then stage.params.get "expression" else stage.argument).Covers F := by
    split_ifs
    · exact h.params.get _
    · exact h.argument
  have hgiven := h.params.firstOf ["template", "fields"]
  -- Without a template all parameters together are one.
  have htemplate (all : Bool) : (if all then .map stage.params else stage.params.firstOf ["template", "fields"] :
      Value).isWritable = false → F .integerTooLong := by
    cases all with
    | true => exact h.params.isWritable
    | false => exact hgiven.admits.written
  refine .ite (.bind (valueCode_ends hset (htemplate _)) fun _ => .pure _) (.ite (.bind (.warn _) fun _ => .pure _) ?_)
  · exact .bind (expressionCode_ends hset _ hexpression) fun _ => .pure _

theorem reduceCode_ends {stage : Stage} (h : Stage.Covers F stage) (data : String) :
    Ends F (reduceCode ctx stage data) := by
  have hseed : ((stage.params.get? "initial").getD (.int 0)).Covers F := by
    cases hv : stage.params.get? "initial" with
    | none => exact Value.covers_int (Number.isWritable_of_small (by decide))
    | some v => exact h.params.get? hv
  have hreducer : (if (stage.argumentOr ["reducer", "expression"]).isNull then .text "acc"
      else stage.argumentOr ["reducer", "expression"]).Covers F := by
    split_ifs
    · exact Value.covers_text _
    · exact h.argumentOr _
  have hrest : Ends F (do
      let code ← expressionCode ctx none (if (stage.argumentOr ["reducer", "expression"]).isNull then .text "acc"
        else stage.argumentOr ["reducer", "expression"])
      let seed ← valueCode ctx ((stage.params.get? "initial").getD (.int 0))
      return "functools.reduce(lambda acc, item: " ++ code ++ ", " ++ data ++ ", " ++ seed ++ ")") :=
    .bind (expressionCode_ends hset _ hreducer) fun _ =>
      .bind (valueCode_ends hset hseed.admits.written) fun _ => .pure _
  exact .bind (.requireImport (by simp [standardStatements])) fun _ => .ite (.bind (.warn _) fun _ => hrest) hrest

theorem boundCode_ends {v : Value} (h : v.Covers F) : Ends F (boundCode ctx v) :=
  .ite (.pure _) (valueCode_ends hset h.admits.written)

theorem flattenCode_ends {stage : Stage} (h : Stage.Covers F stage) (data : String) :
    Ends F (flattenCode ctx stage data) := by
  refine .bind (.requireHelper _) fun _ => .bind (valueCode_ends hset ?_) fun _ => .pure _
  split_ifs
  · exact (Value.covers_int (Number.isWritable_of_small (by decide))).admits.written
  · split
    · rename_i n hn
      exact (hn ▸ h.argument : (Value.int n).Covers F).admits.written
    · exact (h.params.get _).admits.written

theorem stageCode_ends {stage : Stage} (h : Stage.Covers F stage) (data : String) :
    Ends F (stageCode ctx stage data) := by
  have hsort : Ends F (sortCode stage data) := by
    refine .bind (.requireHelper _) fun _ => .lift_bind (sortOrder_answers h) fun sorting hsorting => ?_
    have hfield := fieldLiteral_ends hsorting
    exact .ite (.bind (.warn _) fun _ => .bind hfield fun _ => .pure _) (.bind hfield fun _ => .pure _)
  have hunique : Ends F (uniqueCode stage data) := by
    refine .bind (.requireHelper _) fun _ => ?_
    split
    · exact .pure _
    · exact .pure _
    · exact .bind (fieldLiteral_ends h.keyField) fun _ => .pure _
  obtain ⟨hstart, hstop⟩ := span_covers h
  unfold stageCode
  split
  case h_1 =>
    refine .ite (.bind (.warn _) fun _ => .pure _) ?_
    exact .bind (expressionCode_ends hset _ (h.argumentOr _)) fun _ => .pure _
  case h_2 => exact hsort
  case h_3 => exact mapCode_ends hset h data
  case h_4 => exact reduceCode_ends hset h data
  case h_5 => exact .bind (boundCode_ends hset hstart) fun _ => .bind (boundCode_ends hset hstop) fun _ => .pure _
  case h_6 => exact hunique
  case h_7 => exact hunique
  case h_8 => exact flattenCode_ends hset h data
  case h_9 => exact .bind (.requireHelper _) fun _ => .bind (fieldLiteral_ends h.keyField) fun _ => .pure _

theorem stagesBlock_ends {stages : List Stage} (h : ∀ stage ∈ stages, Stage.Covers F stage) (output data : String) :
    Ends F (stagesBlock ctx output data stages) := by
  induction stages generalizing data with
  | nil => exact .pure _
  | cons stage rest ih =>
    obtain ⟨hstage, hrest⟩ := List.forall_mem_cons.mp h
    exact .bind (stageCode_ends hset hstage data) fun _ => .bind (ih hrest output) fun _ => .pure _

omit hset in
theorem chained_covers {v : Value} (h : v.Covers F) {stage : Stage} (hstage : Transform.chained? v = some stage) :
    Stage.Covers F stage := by
  obtain ⟨entry, hentry, hstage⟩ := Option.bind_eq_some_iff.mp hstage
  obtain ⟨op, -, hstage⟩ := Option.bind_eq_some_iff.mp hstage
  have hfields := (h.step hentry).fields
  have hargument := hfields.get op.name
  dsimp only at hstage
  split at hstage
  · rename_i params hparams
    obtain rfl := Option.some.inj hstage
    exact ⟨Value.covers_null, (hfields.without _).insertAll (hargument.step hparams).fields⟩
  · obtain rfl := Option.some.inj hstage
    exact ⟨hargument, hfields.without _⟩

omit hset in
theorem flatParams_covers {transform : Fields} (h : transform.Covers F) (op : Operation) :
    Fields.Covers F (Transform.flatParams transform op) := by
  intro e he
  obtain ⟨key, -, he⟩ := List.mem_filterMap.mp he
  obtain ⟨v, hv, rfl⟩ := Option.map_eq_some_iff.mp he
  exact ⟨(Value.covers_text key).admits.written, h.get? hv⟩

/-- The faults that the parts of a transform cause are expected. -/
structure Transform.Covers (F : Fault → Prop) (transform : Transform) : Prop where
  source : transform.source.Covers F
  output : transform.output.Covers F
  stages : ∀ stage ∈ transform.stages, Stage.Covers F stage
  unknown : ∀ v ∈ transform.unknown, v.Covers F

omit hset in
theorem flatParts_answers {transform : Fields} (h : transform.Covers F)
    (hoperation : (transform.get "operation").isHashable = false → F .operationNotHashable) :
    Answers F (fun parts => (∀ stage ∈ parts.stages, Stage.Covers F stage) ∧ ∀ v ∈ parts.unknown, v.Covers F)
      (Transform.flatParts transform) := by
  unfold Transform.flatParts
  split
  · exact .ok ⟨List.forall_mem_nil _, List.forall_mem_nil _⟩
  · split
    · refine .ok ⟨List.forall_mem_singleton.mpr ?_, List.forall_mem_nil _⟩
      exact ⟨Value.covers_null, flatParams_covers h _⟩
    · exact .ok ⟨List.forall_mem_nil _, List.forall_mem_singleton.mpr (Value.covers_text _)⟩
  · split_ifs with hhash
    · exact .ok ⟨List.forall_mem_nil _, List.forall_mem_singleton.mpr (h.get _)⟩
    · exact .error (hoperation (by simpa using hhash))

omit hset in
theorem transformFields_answers {transform : Fields} (h : transform.Covers F)
    (hoperation : (transform.get "operation").isHashable = false → F .operationNotHashable) :
    Answers F (Transform.Covers F) (Transform.ofFields transform) := by
  have hoperations : (transform.get "operations").Covers F := h.get _
  refine .bind (flatParts_answers h hoperation) fun flat hflat => .pure ⟨h.firstOf _, ?_, ?_, ?_⟩
  · exact h.firstOf?_getD _ (Value.covers_text _)
  · refine List.forall_mem_append.mpr ⟨hflat.1, fun stage hstage => ?_⟩
    obtain ⟨v, hv, hstage⟩ := List.mem_filterMap.mp hstage
    exact chained_covers (hoperations.mem_items hv) hstage
  · refine List.forall_mem_append.mpr ⟨hflat.2, fun v hv => ?_⟩
    exact hoperations.mem_items (List.mem_filter.mp hv).1

omit hset in
theorem transform_answers {step : Step} (h : step.Covers F) :
    Answers F (fun found => ∀ transform ∈ found, Transform.Covers F transform) (Transform.read? step) := by
  refine .option fun inner hinner => ?_
  exact transformFields_answers ((h.fields.get _).step hinner).fields (h.admits.operation inner hinner)

theorem sourceCode_ends {source : Value} (h : source.Covers F) (output : String) :
    Ends F (sourceCode ctx source output) :=
  .ite (.bind (.warn _) fun _ => .pure _) (collectionCode_ends hset h)

theorem transformBlock_ends {step : Step} (h : step.Covers F) : Ends F (transformBlock ctx step) := by
  refine .lift_bind (transform_answers h) fun found hfound => ?_
  cases found with
  | none => exact skip_ends h.admits.quoted _
  | some transform =>
    have ht := hfound transform rfl
    refine .bind (targetName_ends ht.output _ _) fun output => .bind (sourceCode_ends hset ht.source _) fun source => ?_
    refine .bind (.each fun v hv => ?_) fun comments => .bind (.declare _) fun _ => .ite (.pure _) ?_
    · exact .bind (jsonOf_ends (ht.unknown v hv).admits.quoted) fun _ => .bind (.warn _) fun _ => .pure _
    · exact .bind (stagesBlock_ends hset ht.stages _ _) fun _ => .pure _

/-! ## Imports, calls and actions -/

omit hset in
theorem importCode_ends (path extension code : String) (asData : Bool) :
    Ends F (importCode path extension code asData) := by
  refine .ite ?_ (.ite (.ite ?_ (.pure _)) (.ite ?_ (.ite ?_ (.pure _))))
  · exact .bind (.requireImport (by simp [standardStatements])) fun _ =>
      .bind (.requireImport (by simp [standardStatements])) fun _ => .pure _
  · exact .bind (.requireImport (by simp [standardStatements])) fun _ =>
      .bind (.requireImport (by simp [standardStatements])) fun _ => .pure _
  · exact .bind (.requireHelper _) fun _ => .pure _
  · exact .bind (.warn _) fun _ => .pure _

omit hset in
theorem importName_ends (given : Option String) : Ends F (importName given) := by
  cases given with
  | none => exact .pure _
  | some s => exact .bind (targetName_ends (Value.covers_text s) _ _) fun _ => .pure _

theorem importBlock_ends {imported : Import} (h : imported.params.Covers F) (path : String) :
    Ends F (importBlock ctx imported path) := by
  refine .bind (valueCode_ends hset (Value.covers_text path).admits.written) fun code => ?_
  refine .bind (importName_ends _) fun name => ?_
  cases name with
  | some bound => exact .bind (importCode_ends _ _ _ _) fun _ => .bind (.declare _) fun _ => .pure _
  | none =>
    refine .ite (.bind (paramsCode_ends hset h) fun _ => .pure _) ?_
    exact .bind (importCode_ends _ _ _ _) fun _ => .bind (.warn _) fun _ => .pure _

omit hset in
theorem ofEntry_covers {entry : Value} (h : entry.Covers F) {imported : Import}
    (hread : Import.ofEntry? entry = some imported) : imported.params.Covers F := by
  unfold Import.ofEntry? at hread
  split at hread
  · obtain rfl := Option.some.inj hread
    exact Value.covers_null
  · obtain ⟨es, hfields, hread⟩ := Option.bind_eq_some_iff.mp hread
    obtain ⟨k, -, rfl⟩ := Option.map_eq_some_iff.mp hread
    exact (h.step hfields).fields.get "with"

theorem documentImport_ends {entry : Value} (h : entry.Covers F) : Ends F (documentImport ctx entry) := by
  unfold documentImport
  split
  · rename_i imported path hread
    obtain ⟨found, hfound, hpath⟩ := Option.bind_eq_some_iff.mp hread
    obtain ⟨text, -, he⟩ := Option.map_eq_some_iff.mp hpath
    obtain ⟨rfl, rfl⟩ := Prod.mk.inj he
    have hparams := ofEntry_covers h hfound
    refine .ite (.bind (importName_ends _) fun name => ?_) (importBlock_ends hset hparams _)
    cases name with
    | some bound =>
      exact .bind (.declare _) fun _ =>
        .bind (valueCode_ends hset (Value.covers_text _).admits.written) fun _ => .pure _
    | none => exact importBlock_ends hset hparams _
  · exact .bind (jsonOf_ends h.admits.quoted) fun _ => .bind (.warn _) fun _ => .pure _

theorem useBlock_ends {step : Step} (h : step.Covers F) : Ends F (useBlock ctx step) := by
  have hrest (reference : Pass String) (hr : Ends F reference) : Ends F (do
      let reference ← reference
      let params ← paramsCode ctx (Use.ofStep step).params
      return [Item.line (.evaluate (ctx.agent.runFlow reference params))]) :=
    .bind hr fun _ => .bind (paramsCode_ends hset (h.fields.get "with")) fun _ => .pure _
  unfold useBlock
  dsimp only
  split
  · exact skip_ends h.admits.quoted _
  · refine .bind .get fun _ => ?_
    split
    · exact hrest _ (.pure _)
    · exact .ite (hrest _ (.pure _)) (hrest _ (valueCode_ends hset (h.fields.get "use").admits.written))

/-- The faults that the values of a call cause are expected. -/
structure Call.Covers (F : Fault → Prop) (call : Call) : Prop where
  resultName : call.resultName.Covers F
  url : call.url.Covers F
  headers : call.headers.Covers F
  body : call.body.Covers F
  command : call.command.Covers F

omit hset in
theorem call_answers {step : Step} (h : step.Covers F) :
    Answers F (fun found => ∀ call ∈ found, Call.Covers F call) (Call.read? step) := by
  refine .option fun inner hinner => ?_
  have hfields := ((h.fields.get "external_call").step hinner).fields
  have hmethod : ((inner.get "method").orElse (.text "GET")).Covers F :=
    (hfields.get _).orElse (Value.covers_text _)
  refine .bind (Value.shown_answers hmethod.admits.written) fun method _ => .pure ?_
  exact ⟨hfields.firstOf?_getD _ (Value.covers_text _), hfields.get _, hfields.get _, hfields.get _, hfields.get _⟩

theorem payloadArgument_ends {v : Value} (h : v.Covers F) (what : String) : Ends F (payloadArgument ctx v what) := by
  have hdepth : Answers F (fun _ => True) v.measuredDepth := by
    unfold Value.measuredDepth
    split_ifs with hdepth
    · exact .ok trivial
    · exact .error (h.admits.measured (Nat.not_le.mp hdepth))
  have hcode := valueCode_ends hset h.admits.written
  refine .ite (.pure _) (.bind ?_ fun _ => .pure _)
  refine .bind (.lift hdepth) fun depth => .bind (.lift (Limit.isPassedBy_answers hset.resolve _)) fun passed => ?_
  exact .ite (.bind (.lift (Value.shown_answers hset.resolveShown)) fun _ => .bind (.warn _) fun _ => hcode) hcode

theorem callBlock_ends {step : Step} (h : step.Covers F) : Ends F (callBlock ctx step) := by
  refine .lift_bind (call_answers h) fun found hfound => ?_
  cases found with
  | none => exact skip_ends h.admits.quoted _
  | some call =>
    have hcall := hfound call rfl
    have hbind {code : Pass String} (hc : Ends F code) : Ends F (bindCall call code) :=
      .bind hc fun _ => .bind (targetName_ends hcall.resultName _ _) fun _ => .bind (.declare _) fun _ => .pure _
    refine .ite (hbind ?_) (.ite (hbind ?_) (skip_ends h.admits.quoted _))
    · exact .bind (.requireHelper _) fun _ => .bind (valueCode_ends hset hcall.url.admits.written) fun _ =>
        .bind (payloadArgument_ends hset hcall.headers _) fun _ =>
          .bind (payloadArgument_ends hset hcall.body _) fun _ => .pure _
    · exact .bind (.requireImport (by simp [standardStatements])) fun _ =>
        .bind (valueCode_ends hset hcall.command.admits.written) fun _ => .pure _

theorem pause_ends {duration : Value} (h : duration.Covers F)
    (hpause : ∀ f, pauseSeconds duration = .error f → F f) : Ends F (pause ctx duration) := by
  refine .bind (.requireImport (by simp [standardStatements])) fun _ => ?_
  refine .bind (.lift (.of_faults hpause)) fun seconds => ?_
  cases seconds with
  | some seconds => exact .pure _
  | none => exact .bind (valueCode_ends hset h.admits.written) fun _ => .pure _

theorem namedArguments_ends {options : Fields} (h : options.Covers F) : Ends F (namedArguments ctx options) := by
  induction options with
  | nil => exact .pure _
  | cons e rest ih =>
    obtain ⟨⟨hkey, hv⟩, hrest⟩ := List.forall_mem_cons.mp h
    refine .bind (.lift (Value.shown_answers hkey)) fun shown => .ite ?_ ?_
    · exact .bind (valueCode_ends hset hv.admits.written) fun _ => .bind (ih hrest) fun _ => .pure _
    · exact .bind (.warn _) fun _ => ih hrest

omit hset in
/-- The prompt and the options of an action come from its step. -/
theorem action_covers {step : Step} (h : step.Covers F) {action : Action} (hread : Action.read? step = some action) :
    action.prompt.Covers F ∧ action.options.Covers F := by
  have hresult (keyword : String) {prompt : Value} {options : Fields} (nested : Bool) (hp : prompt.Covers F)
      (ho : options.Covers F) : (Action.withResult keyword prompt options nested).prompt.Covers F ∧
        (Action.withResult keyword prompt options nested).options.Covers F := by
    unfold Action.withResult
    split_ifs
    · exact ⟨hp, ho.without _⟩
    · exact ⟨hp, ho⟩
  obtain ⟨keyword, -, rfl⟩ := Option.map_eq_some_iff.mp hread
  have hbeside := h.fields.without [keyword]
  have hprompt := h.fields.get keyword
  unfold Action.ofKeyword
  dsimp only
  split
  · rename_i inside hinside
    have hfields := (hprompt.step hinside).fields
    exact hresult _ _ (hfields.firstOf _) (hbeside.insertAll (hfields.without _))
  · exact hresult _ _ hprompt hbeside

omit hset in
theorem invocation_covers {action : Action} (hp : action.prompt.Covers F) (ho : action.options.Covers F) :
    (Invocation.ofAction action).prompt.Covers F ∧ (Invocation.ofAction action).options.Covers F := by
  unfold Invocation.ofAction
  split
  · split_ifs
    · dsimp only
      split_ifs
      · exact ⟨Value.covers_null, ho⟩
      · refine ⟨Value.covers_null, ho.append (List.forall_mem_singleton.mpr ?_)⟩
        exact ⟨(Value.covers_text _).admits.written, Value.covers_text _⟩
    · exact ⟨hp, ho⟩
  · exact ⟨hp, ho⟩

theorem actionBlock_ends {step : Step} (h : step.Covers F) : Ends F (actionBlock ctx step) := by
  unfold actionBlock
  split
  · exact skip_ends h.admits.quoted _
  · rename_i action hread
    obtain ⟨hp, ho⟩ := action_covers h hread
    obtain ⟨hprompt, hoptions⟩ := invocation_covers hp ho
    refine .ite (pause_ends hset (h.fields.get _) h.admits.pause) (.bind ?_ fun arguments => ?_)
    · refine .ite (namedArguments_ends hset hoptions) (.bind (valueCode_ends hset hprompt.admits.written) fun _ => ?_)
      exact .bind (namedArguments_ends hset hoptions) fun _ => .pure _
    · dsimp only
      split
      · exact .pure _
      · exact .bind (targetName_ends (Value.covers_text _) _ _) fun _ => .bind (.declare _) fun _ => .pure _

theorem bindingsBlock_ends {bindings : Fields} (h : bindings.Covers F) : Ends F (bindingsBlock ctx bindings) := by
  refine .each fun entry hentry => ?_
  obtain ⟨hkey, hv⟩ := h entry hentry
  unfold bindingBlock
  split
  · exact .bind (.declare _) fun _ => .bind (valueCode_ends hset hv.admits.written) fun _ => .pure _
  · exact .bind (.lift (Value.spelled_answers hkey)) fun _ => .bind (.warn _) fun _ => .pure _

/-! ## Steps with flows -/

section Nested

variable {nested : Flow → Pass Block} (hnested : ∀ flow, flow.Covers F → Ends F (nested flow))

include hnested

theorem conditionalBlock_ends {step : Step} (h : step.Covers F) : Ends F (conditionalBlock ctx nested step) := by
  have hlogic := h.fields.get "logic"
  refine .ite (skip_ends h.admits.quoted _) ?_
  refine .bind (valueCode_ends hset (hlogic.field "if").admits.written) fun condition => ?_
  refine .bind (hnested _ (Flow.covers_items (hlogic.field _))) fun yes => .ite (.pure _) ?_
  exact .bind (hnested _ (Flow.covers_items (hlogic.field _))) fun no => .pure _

theorem forBlock_ends {loop : Fields} (h : loop.Covers F) : Ends F (forBlock ctx nested (Loop.ofFields loop)) := by
  have hflow : Flow.Covers F (Loop.ofFields loop).flow := Flow.covers_fieldsFlow_getD h
  refine .bind (collectionCode_ends hset (h.firstOf _)) fun items => ?_
  refine .bind (targetName_ends (h.firstOf?_getD _ (Value.covers_text _)) _ _) fun item => ?_
  refine .bind (.declare _) fun _ => ?_
  refine .ite (.bind (hnested _ hflow) fun body => .pure _) ?_
  exact .bind (targetName_ends (h.firstOf _) _ _) fun index => .bind (.declare _) fun _ =>
    .bind (hnested _ hflow) fun body => .pure _

theorem whileBlock_ends {loop : Fields} (h : loop.Covers F)
    (hrounds : ∀ f, wholeCount? (Loop.ofFields loop).maxIterations = .error f → F f) :
    Ends F (whileBlock ctx nested (Loop.ofFields loop)) := by
  have hflow : Flow.Covers F (Loop.ofFields loop).flow := Flow.covers_fieldsFlow_getD h
  have hcounter : Ends F (counterName (Loop.ofFields loop)) := by
    unfold counterName
    split
    · exact .bind (.declare _) fun _ => .pure _
    · exact .bind .get fun _ => .bind (.declare _) fun _ => .pure _
  refine .bind hcounter fun counter => .ite (.bind (.lift (Value.spelled_answers hset.rounds)) fun bound => ?_)
    (.bind (countCode_ends hset (h.firstOf _) hrounds) fun bound => ?_)
  all_goals
    exact .bind (valueCode_ends hset (h.get "condition").admits.written) fun condition =>
      .bind (hnested _ hflow) fun body => .pure _

theorem repeatBlock_ends {loop : Fields} (h : loop.Covers F)
    (hrounds : ∀ f, wholeCount? (Loop.ofFields loop).count = .error f → F f) :
    Ends F (repeatBlock ctx nested (Loop.ofFields loop)) := by
  have hflow : Flow.Covers F (Loop.ofFields loop).flow := Flow.covers_fieldsFlow_getD h
  have hrest (index : String) : Ends F (do
      declare index
      let count ← countCode ctx (Loop.ofFields loop).count
      let body ← nested (Loop.ofFields loop).flow
      return [Item.block (.counted index count) (filled body)]) :=
    .bind (.declare _) fun _ => .bind (countCode_ends hset (h.firstOf _) hrounds) fun _ =>
      .bind (hnested _ hflow) fun _ => .pure _
  exact .ite (.bind (.pure _) fun index => hrest index)
    (.bind (targetName_ends (h.firstOf _) _ _) fun index => hrest index)

theorem loopBlock_ends {step : Step} (h : step.Covers F) : Ends F (loopBlock ctx nested step) := by
  have hskip (reason : String) : Ends F (skip reason (.map step)) := skip_ends h.admits.quoted reason
  unfold loopBlock
  split
  · exact hskip _
  · rename_i loop hread
    obtain ⟨inner, hinner, rfl⟩ := Option.map_eq_some_iff.mp hread
    have hloop := ((h.fields.get "loop").step hinner).fields
    have hrounds := h.admits.rounds _ hread
    unfold Loop.rounds at hrounds
    split
    · exact .ite (hskip _) (forBlock_ends hset hnested hloop)
    · rename_i hkind
      rw [hkind, if_pos rfl] at hrounds
      exact .ite (hskip _) (whileBlock_ends hset hnested hloop hrounds)
    · rename_i hkind
      rw [hkind, if_neg (by decide), if_pos rfl] at hrounds
      exact .ite (hskip _) (repeatBlock_ends hset hnested hloop hrounds)
    · exact hskip _

omit hset in
theorem guardBlock_ends {step : Step} (h : step.Covers F) : Ends F (guardBlock nested step) := by
  have hbeside (name : String) :
      (if (step.get name).isNull then (step.get "try").field name else step.get name).Covers F := by
    split_ifs
    · exact (h.fields.get "try").field name
    · exact h.fields.get name
  have hblock {block : Value} (hb : block.Covers F) : ∀ flow ∈ Guard.blockFlow? block, Flow.Covers F flow := by
    intro flow hflow
    unfold Guard.blockFlow? at hflow
    split_ifs at hflow
    · cases hflow
    · obtain rfl := Option.some.inj hflow
      exact Flow.covers_getD hb
  have hname : (Guard.read step).errorName.Covers F := by
    change (Guard.errorNameOf (step.guardBlocks.handler)).Covers F
    unfold Guard.errorNameOf
    cases hfields : step.guardBlocks.handler.fields? with
    | none => exact Value.covers_text _
    | some es => exact ((hbeside "catch").step hfields).fields.firstOf?_getD _ (Value.covers_text _)
  have hhandler : Ends F (handlerBlock nested (Guard.read step)) := by
    unfold handlerBlock
    split
    · rename_i flow hflow
      exact .bind (targetName_ends hname _ _) fun _ => .bind (.declare _) fun _ =>
        .bind (hnested flow (hblock (hbeside "catch") flow hflow)) fun _ => .pure _
    · exact .ite (.pure _) (.bind (.warn _) fun _ => .pure _)
  have hcleanup : Ends F (cleanupBlock nested (Guard.read step)) := by
    unfold cleanupBlock
    split
    · rename_i flow hflow
      exact .bind (hnested flow (hblock (hbeside "finally") flow hflow)) fun _ => .pure _
    · exact .pure _
  have hrest : Ends F (do
      let body ← nested ((Guard.read step).body.getD [])
      let handler ← handlerBlock nested (Guard.read step)
      let cleanup ← cleanupBlock nested (Guard.read step)
      return Item.block .attempt (filled body) :: (handler ++ cleanup)) :=
    .bind (hnested _ (Flow.covers_getD (h.fields.get "try"))) fun _ =>
      .bind hhandler fun _ => .bind hcleanup fun _ => .pure _
  exact .ite (.bind (.warn _) fun _ => hrest) hrest

omit hset hnested in
theorem bindings_answers {step : Step} (h : step.Covers F) (control : Bool) :
    Answers F (fun _ => True) (step.bindings control) := by
  have hbound : Answers F (fun _ => True) step.boundValues := by
    unfold Step.boundValues
    split
    · exact .ok trivial
    · exact .ok trivial
    · exact .ok trivial
    · exact .bind (call_answers h) fun _ _ => .pure trivial
    · exact .bind (transform_answers h) fun _ _ => .pure trivial
    · exact .ok trivial
    · exact .ok trivial
  exact .bind hbound fun _ _ => .pure trivial

omit hset hnested in
theorem boundNames_answers {flow : Flow} (h : flow.Covers F) (control : Bool) (levels : Nat) :
    Answers F (fun _ => True) (flow.boundNames control levels) := by
  have hvisits : ∀ visit ∈ Walk.visits (flow.walk (fun _ => true) levels ""), visit.step.Covers F := by
    intro visit hvisit
    refine h.mem_steps (?_ : visit.step ∈ flow.steps (fun _ => true) levels)
    rw [← Flow.visits_walk _ _ _ ""]
    exact List.mem_map_of_mem hvisit
  exact .bind (.mapM fun visit hvisit => bindings_answers (hvisits visit hvisit) control) fun _ _ => .pure trivial

omit hset hnested in
theorem lastBoundName_answers {flow : Flow} (h : flow.Covers F) : Answers F (fun _ => True) flow.lastBoundName? := by
  have hsteps : ∀ step ∈ flow.filterMap Value.step?, step.Covers F := by
    intro step hstep
    obtain ⟨entry, hentry, hstep⟩ := List.mem_filterMap.mp hstep
    exact (h entry hentry).step hstep
  exact .bind (.mapM fun step hstep => bindings_answers (hsteps step hstep) false) fun _ _ => .pure trivial

omit hnested in
theorem walkLevels_answers : Answers F (fun _ => True) ctx.settings.walkLevels := by
  have hrounded := Limit.rounded_answers hset.walk Number.Exact.ceiling
  unfold Settings.walkLevels Limit.levels
  cases hr : ctx.settings.maxWalkDepth.rounded Number.Exact.ceiling with
  | ok n => exact .ok trivial
  | error f => exact .error (hrounded.fault hr)

omit hset hnested in
theorem hoist_ends (names : List String) : Ends F (hoist names) := by
  induction names with
  | nil => exact .pure _
  | cons name rest ih => exact .bind .get fun _ => .bind (.declare _) fun _ => .bind ih fun _ => .pure _

omit hset hnested in
theorem declareAll_ends (names : List String) : Ends F (declareAll names) := by
  induction names with
  | nil => exact .pure _
  | cons name rest ih => exact .bind (.declare _) fun _ => ih

omit hset in
theorem branchBlock_ends {branch : NamedBranch} (h : Flow.Covers F branch.branch.flow) (merges : Bool) (group : Nat) :
    Ends F (branchBlock nested merges group branch) := by
  have hbody : Ends F (keepScope (nested branch.branch.flow)) :=
    .bind .get fun _ => .bind (hnested _ h) fun _ => .bind (.modify fun _ => rfl) fun _ => .pure _
  refine .bind hbody fun body => .bind ?_ fun _ => .pure _
  exact .ite (.bind (.lift (lastBoundName_answers h)) fun _ => .pure _) (.pure _)

theorem groupBlock_ends {parallel : Parallel} (h : ∀ branch ∈ parallel.branches, Flow.Covers F branch.flow) :
    Ends F (groupBlock ctx nested parallel) := by
  have hnamed : Answers F (fun named => ∀ b ∈ named, Flow.Covers F b.branch.flow) (nameBranches ctx parallel) := by
    refine .mapM fun numbered hnumbered => ?_
    have hflow := h _ (List.fst_mem_of_mem_zipIdx hnumbered)
    exact .bind (walkLevels_answers hset) fun levels _ =>
      .bind (boundNames_answers hflow false levels) fun _ _ => .pure hflow
  have hnumber : Ends F nextGroup := .bind (.modify fun _ => rfl) fun _ => .bind .get fun _ => .pure _
  refine .bind (.requireHelper _) fun _ => .bind hnumber fun group => ?_
  refine .lift_bind hnamed fun named hbranches => .bind (hoist_ends _) fun hoisted => ?_
  refine .bind (.each fun branch hbranch => branchBlock_ends hnested (hbranches branch hbranch) _ _) fun functions => ?_
  exact .bind (declareAll_ends _) fun _ => .pure _

theorem parallelBlock_ends {step : Step} (h : step.Covers F) : Ends F (parallelBlock ctx nested step) := by
  unfold parallelBlock
  split
  · exact skip_ends h.admits.quoted _
  · rename_i parallel hread
    refine .ite (.bind (.warn _) fun _ => .pure _) (groupBlock_ends hset hnested fun branch hbranch => ?_)
    obtain ⟨branches, hbranches, rfl⟩ := Option.map_eq_some_iff.mp hread
    obtain ⟨v, hv, rfl⟩ := List.mem_map.mp hbranch
    obtain ⟨inner, hinner, hitems⟩ := Option.bind_eq_some_iff.mp hbranches
    have hgroup := ((h.fields.get "parallel").step hinner).fields
    have hlist : (if (inner.get "tasks").isNull then inner.get "branches" else inner.get "tasks").Covers F := by
      split_ifs
      · exact hgroup.get _
      · exact hgroup.get _
    exact Flow.covers_getD (hlist.item hitems hv)

theorem stepBlock_ends {step : Step} (h : step.Covers F) : Ends F (stepBlock ctx nested step) := by
  unfold stepBlock
  split
  · unfold variablesBlock
    split
    · rename_i bindings hbindings
      exact bindingsBlock_ends hset ((h.fields.get "variables").step hbindings).fields
    · exact skip_ends h.admits.quoted _
  · exact conditionalBlock_ends hset hnested h
  · exact loopBlock_ends hset hnested h
  · unfold importStepBlock
    dsimp only
    split
    · exact importBlock_ends hset (h.fields.get "with") _
    · exact skip_ends h.admits.quoted _
  · exact transformBlock_ends hset h
  · exact guardBlock_ends hnested h
  · exact callBlock_ends hset h
  · exact parallelBlock_ends hset hnested h
  · exact useBlock_ends hset h
  · exact actionBlock_ends hset h
  · exact skip_ends h.admits.quoted _

end Nested

/-! ## Flows and documents -/

theorem flowBlock_ends {levels : Nat} {flow : Flow} (h : flow.Covers F) : Ends F (flowBlock ctx levels flow) := by
  induction levels generalizing flow with
  | zero => exact .bind (.lift (Value.shown_answers hset.walkShown)) fun _ => .bind (.warn _) fun _ => .pure _
  | succ levels ih =>
    refine .each fun entry hentry => ?_
    unfold entryOfFlow
    split
    · rename_i step hstep
      exact .bind (.modify fun _ => rfl) fun _ =>
        stepBlock_ends hset (fun _ hflow => ih hflow) ((h entry hentry).step hstep)
    · exact skip_ends (h entry hentry).admits.quoted _

theorem flowAt_ends {flow : Flow} (h : flow.Covers F) (level : Int) : Ends F (flowAt ctx level flow) := by
  have hlevels : Answers F (fun _ => True) (levelsFrom ctx.settings level) :=
    .bind (Limit.rounded_answers hset.walk _) fun _ _ => .pure trivial
  exact .bind (.lift hlevels) fun _ => flowBlock_ends hset h

theorem outputBlock_ends {output : Value} (h : output.Covers F) : Ends F (outputBlock ctx output) := by
  refine .ite (.pure _) (.ite (.bind (.warn _) fun _ => .pure _) ?_)
  dsimp only
  split
  · exact .bind (.lift (Value.spelled_answers (h.field _).admits.written)) fun _ => .bind (.warn _) fun _ => .pure _
  · exact .bind (.requireHelper _) fun _ => .bind (valueCode_ends hset (h.field _).admits.written) fun _ => .pure _

theorem taskBlock_ends {task : Value} (h : task.Covers F) (total i : Nat) : Ends F (taskBlock ctx total (task, i)) := by
  unfold taskBlock
  dsimp only
  split
  · exact .bind (.warn _) fun _ => .pure _
  · rename_i flow hflow
    obtain ⟨es, hfields, hflow⟩ := Option.bind_eq_some_iff.mp hflow
    have hcovers := Flow.covers_fieldsFlow (h.step hfields).fields hflow
    have htask : Ends F (taskFlowBlock ctx task (taskName task i) flow) := by
      unfold taskFlowBlock
      split
      · exact .bind (.requireHelper _) fun _ => .bind (flowAt_ends hset hcovers _) fun _ => .pure _
      · exact flowAt_ends hset hcovers _
    exact .bind htask fun _ => .bind (outputBlock_ends hset (h.field _)) fun _ => .pure _

theorem documentBlock_ends {document : Fields} (h : document.Covers F) : Ends F (documentBlock ctx document) := by
  have hbindings : Fields.Covers F ((document.get "variables").fields?.getD []) := by
    cases hfields : (document.get "variables").fields? with
    | none => exact fun e he => (nomatch he)
    | some es => exact ((h.get "variables").step hfields).fields
  have hprologue : Ends F (prologue ctx document) :=
    .bind (.each fun entry hentry => documentImport_ends hset ((h.get "import").mem_items hentry)) fun _ =>
      .bind (bindingsBlock_ends hset hbindings) fun _ => .pure _
  refine .bind hprologue fun _ => .bind (.each fun numbered hnumbered => ?_) fun _ => .pure _
  exact taskBlock_ends hset ((h.get "tasks").mem_items (List.fst_mem_of_mem_zipIdx hnumbered)) _ _

end Rules

end Program

end FlowScript
