import FlowScript.Proofs.Traversal

/-!
# Names that flows assign to

Two passes over a flow know its names. Compiling it assigns to them, and the walk collects them from the
steps without compiling anything. The main statements are that every name that is assigned to is found,
and that the name which the last steps leave is found too.
-/
namespace FlowScript.Program

open Construct Pass

/-! ## Names in blocks -/

mutual

/-- The names that an item assigns values to, at any depth. -/
def Item.assigned : Item → List String
  | .line (.assign target _) => [target]
  | .line (.join outputs _) => outputs
  | .line _ => []
  | .comment _ => []
  | .blank => []
  | .block _ body => blockAssigned body

def blockAssigned : List Item → List String
  | [] => []
  | item :: items => item.assigned ++ blockAssigned items

end

section Blocks

variable {a b : Block}

@[simp] theorem blockAssigned_nil : blockAssigned [] = [] := rfl

@[simp] theorem blockAssigned_cons (item : Item) (items : Block) :
    blockAssigned (item :: items) = item.assigned ++ blockAssigned items := rfl

@[simp] theorem blockAssigned_append : blockAssigned (a ++ b) = blockAssigned a ++ blockAssigned b := by
  induction a with
  | nil => simp
  | cons item items ih => simp [ih]

theorem mem_blockAssigned {n : String} : n ∈ blockAssigned b ↔ ∃ item ∈ b, n ∈ item.assigned := by
  induction b with
  | nil => simp
  | cons item items ih => simp [ih]

end Blocks

/-! ## The names that steps bind -/

theorem mem_namesOf {values : List Value} {name : String} :
    name ∈ namesOf values ↔ .text name ∈ values ∧ name ≠ "" := by
  have htext (v : Value) : v.text? = some name ↔ v = .text name := by
    cases v <;> simp [Value.text?]
  simp only [namesOf, List.mem_filterMap, Option.filter_eq_some_iff, htext, bne_iff_ne]
  constructor
  · rintro ⟨v, hv, rfl, hne⟩
    exact ⟨hv, hne⟩
  · rintro ⟨hv, hne⟩
    exact ⟨_, hv, rfl, hne⟩

/-- A step binds a name as a value, by itself. -/
def StepBinds (step : Step) (name : String) : Prop :=
  ∃ names, step.bindings false = .ok names ∧ name ∈ names

theorem stepBinds_of_mem {step : Step} {values : List Value} {name : String}
    (hv : step.boundValues = .ok values) (hmem : .text name ∈ values) (hne : name ≠ "") :
    StepBinds step name := by
  refine ⟨namesOf (values ++ []), ?_, ?_⟩
  · rw [Step.bindings, hv]
    rfl
  · rw [mem_namesOf, List.append_nil]
    exact ⟨hmem, hne⟩

end FlowScript.Program

namespace FlowScript

/-- Whether the names under which an action, a call or a transform leaves its result can be written. A
name that cannot be is replaced by a fixed one, which the walk does not find. -/
def Step.namesResults (step : Step) : Bool :=
  match step.kind with
  | .action | .call | .transform =>
    match step.boundValues with
    | .ok values => values.all fun v => v.identifier?.isSome
    | .error _ => true
  | _ => true

end FlowScript

namespace FlowScript.Program

open Construct Pass

/-- Every item of what a pass over a list leaves comes from one of its entries. -/
theorem mem_each {α : Type} {f : α → Pass Block} {entries : List α} {s s' : State} {b : Block}
    (h : (each f entries).Runs s b s') {item : Item} (hi : item ∈ b) :
    ∃ entry ∈ entries, ∃ t body t', (f entry).Runs t body t' ∧ item ∈ body := by
  induction entries generalizing s b with
  | nil =>
    obtain ⟨rfl, -⟩ := runs_each_nil.mp h
    simp at hi
  | cons entry rest ih =>
    obtain ⟨first, t, others, hfirst, hrest, rfl⟩ := runs_each_cons.mp h
    rcases List.mem_append.mp hi with hi | hi
    · exact ⟨entry, List.mem_cons_self, s, first, t, hfirst, hi⟩
    · obtain ⟨other, hmem, hother⟩ := ih hrest hi
      exact ⟨other, List.mem_cons_of_mem _ hmem, hother⟩

section Assigned

variable {ctx : Context} {step : Step} {nested : Flow → Pass Block} {s s' : State} {b : Block}

/-- The name of a result is the one that the step gives. -/
theorem stepBinds_nameOr {v : Value} {values : List Value} (fallback : String)
    (hk : step.kind = .action ∨ step.kind = .call ∨ step.kind = .transform)
    (hnames : step.namesResults = true) (hv : step.boundValues = .ok values) (hmem : v ∈ values) :
    StepBinds step (nameOr v fallback) := by
  have hall : values.all (fun v => v.identifier?.isSome) = true := by
    unfold Step.namesResults at hnames
    rcases hk with hk | hk | hk <;> simpa only [hk, hv] using hnames
  obtain ⟨name, hname⟩ := Option.isSome_iff_exists.mp (List.all_eq_true.mp hall v hmem)
  obtain ⟨rfl, hid⟩ := identifier?_eq_some hname
  rw [nameOr, hname, Option.getD_some]
  exact stepBinds_of_mem hv hmem (ne_empty_of_isIdentifier hid)

theorem outputs_ne_empty {parallel : Parallel} {output : String} (h : output ∈ parallel.outputs) :
    output ≠ "" := by
  unfold Parallel.outputs at h
  split_ifs at h
  · obtain ⟨⟨branch, i⟩, -, rfl⟩ := List.mem_map.mp h
    have hnumbered : "result_" ++ Number.natText i ≠ "" := by simp
    simp only [Parallel.outputName]
    split
    · split_ifs with hname
      · exact ne_empty_of_isIdentifier hname
      · exact hnumbered
    · exact hnumbered
  · simp at h

@[simp] theorem assigned_filled (block : Block) : blockAssigned (filled block) = blockAssigned block := by
  cases block <;> rfl

@[simp] theorem assigned_branchHeader (names : List String) : blockAssigned (branchHeader names) = [] := by
  unfold branchHeader
  split_ifs <;> rfl

@[simp] theorem assigned_afterHoisted (block : Block) : blockAssigned (afterHoisted block) = [] := by
  unfold afterHoisted
  split_ifs <;> rfl

theorem assigned_hoisted (names : List String) :
    blockAssigned (names.map fun n => .line (.hoist n)) = [] := by
  induction names with
  | nil => simp
  | cons name names ih => exact ih

theorem assigned_comments (texts : List String) : blockAssigned (texts.map .comment) = [] := by
  induction texts with
  | nil => simp
  | cons text texts ih => exact ih

theorem eq_of_mem_assigned_lines {target n : String} {codes : List String}
    (h : n ∈ blockAssigned (codes.map fun code => .line (.assign target code))) : n = target := by
  induction codes with
  | nil => simp at h
  | cons code codes ih =>
    rw [List.map_cons, blockAssigned_cons, List.mem_append] at h
    rcases h with h | h
    · exact List.mem_singleton.mp h
    · exact ih h

theorem assigned_branchEnd {merges : Bool} {flow : Flow} {names : List String} {body : Block}
    (h : (branchEnd merges flow names body).Runs s b s') : blockAssigned b = [] := by
  unfold branchEnd at h
  split_ifs at h
  · simp only [runs_bind, runs_pure] at h
    obtain ⟨_, _, -, rfl, -⟩ := h
    rfl
  · obtain ⟨rfl, -⟩ := runs_pure.mp h
    rfl
  · obtain ⟨rfl, -⟩ := runs_pure.mp h
    rfl

theorem bindingsBlock_assigned {bindings : Fields} (h : (bindingsBlock ctx bindings).Runs s b s') :
    blockAssigned b = bindings.filterMap (·.1.identifier?) := by
  unfold bindingsBlock at h
  induction bindings generalizing s b with
  | nil =>
    obtain ⟨rfl, -⟩ := runs_each_nil.mp h
    simp
  | cons entry rest ih =>
    obtain ⟨first, t, others, hfirst, hrest, rfl⟩ := runs_each_cons.mp h
    obtain ⟨name, code, hname, rfl, -⟩ | ⟨text, hname, rfl, -⟩ := bindingBlock_spec hfirst
    · simp [Item.assigned, hname, ih hrest]
    · simp [Item.assigned, hname, ih hrest]

theorem branches_assigned {merges : Bool} {group : Nat} {named : List NamedBranch}
    {binds : Flow → String → Prop}
    (hnested : ∀ branch ∈ named, ∀ {s b s'}, (nested branch.branch.flow).Runs s b s' →
      ∀ n ∈ blockAssigned b, binds branch.branch.flow n)
    (h : BranchesRun nested merges group named s b s') :
    ∀ n ∈ blockAssigned b, ∃ branch ∈ named, binds branch.branch.flow n := by
  induction h with
  | nil => simp
  | @cons branch rest body ending others s t s' hn he hr ih =>
    intro n hn'
    simp only [blockAssigned_cons, Item.assigned, blockAssigned_append, assigned_branchHeader,
      assigned_branchEnd he, List.nil_append, List.append_nil, List.mem_append] at hn'
    rcases hn' with hbody | hothers
    · exact ⟨branch, by simp, hnested branch (by simp) hn n hbody⟩
    · obtain ⟨other, hmem, hbinds⟩ :=
        ih (fun other hmem => hnested other (List.mem_cons_of_mem _ hmem)) n hothers
      exact ⟨other, List.mem_cons_of_mem _ hmem, hbinds⟩

theorem constructFlows_of_named {parallel : Parallel} {named : List NamedBranch}
    (hk : step.kind = .parallel) (hr : Parallel.read? step = some parallel)
    (hbranches : nameBranches ctx parallel = .ok named) :
    constructFlows step = named.map (·.branch.flow) := by
  simp only [constructFlows, hk, hr, Option.elim_some, ← (nameBranches_spec hbranches).1, List.map_map,
    Function.comp_def]

/-- The names that the block of a step assigns to are bound by the step or below it. -/
theorem StepRun.assigned {binds : Flow → String → Prop} (hnames : step.namesResults = true)
    (hnested : ∀ flow ∈ constructFlows step, ∀ {s b s'}, (nested flow).Runs s b s' →
      ∀ n ∈ blockAssigned b, binds flow n)
    (h : StepRun nested ctx step s b s') :
    ∀ n ∈ blockAssigned b, StepBinds step n ∨ ∃ flow ∈ constructFlows step, binds flow n := by
  intro n hn
  -- Where a flow of the step assigns to the name, the walk finds it there.
  have below {flow : Flow} {t t' : State} {body : Block} (hflow : flow ∈ constructFlows step)
      (hrun : (nested flow).Runs t body t') (hbody : n ∈ blockAssigned body) :
      StepBinds step n ∨ ∃ flow ∈ constructFlows step, binds flow n :=
    .inr ⟨flow, hflow, hnested flow hflow hrun n hbody⟩
  cases h with
  | skipped => simp [Item.assigned] at hn
  | @assignments bindings _ _ _ hk hc hb run =>
    rw [bindingsBlock_assigned run] at hn
    obtain ⟨entry, hentry, hname⟩ := List.mem_filterMap.mp hn
    obtain ⟨htext, hid⟩ := identifier?_eq_some hname
    have hvalues : step.boundValues = .ok (bindings.map (·.1)) := by
      simp only [Step.boundValues, hk, hb, Option.getD_some]
    refine .inl (stepBinds_of_mem hvalues ?_ (ne_empty_of_isIdentifier hid))
    exact List.mem_map.mpr ⟨entry, hentry, htext⟩
  | importing hk hc hp run =>
    obtain ⟨name, code, hname, rfl, -⟩ | ⟨-, -, ⟨-, rest, rfl⟩ | ⟨-, _, -, rfl⟩⟩ := importBlock_spec run
    · obtain ⟨hgiven, hid⟩ := Option.filter_eq_some_iff.mp hname
      have hvalues : step.boundValues = .ok [.text name] := by
        simp only [Step.boundValues, hk, hgiven, Step.optionText, Option.toList_some, List.map_cons,
          List.map_nil]
      obtain rfl : n = name := by simpa [Item.assigned] using hn
      exact .inl (stepBinds_of_mem hvalues (by simp) (ne_empty_of_isIdentifier hid))
    · simp [Item.assigned] at hn
    · simp [Item.assigned] at hn
  | @transform t texts code codes _ _ hk hr hc hb =>
    have hvalues : step.boundValues = .ok [t.output] := by
      simp only [Step.boundValues, hk, hr]
      rfl
    rw [blockAssigned_append, assigned_comments, List.nil_append] at hn
    obtain rfl := eq_of_mem_assigned_lines hn
    exact .inl (stepBinds_nameOr _ (.inr (.inr hk)) hnames hvalues (by simp))
  | @call c code _ _ hk hr hc hb =>
    have hvalues : step.boundValues = .ok [c.resultName] := by
      simp only [Step.boundValues, hk, hr]
      rfl
    obtain rfl : n = nameOr c.resultName "response" := by simpa [Item.assigned] using hn
    exact .inl (stepBinds_nameOr _ (.inr (.inl hk)) hnames hvalues (by simp))
  | use => simp [Item.assigned] at hn
  | @query action given code _ _ hk hr hc hg hb =>
    have hvalues : step.boundValues = .ok [.text given] := by
      simp only [Step.boundValues, hk, hr, Option.bind_some, hg, Step.optionText, Option.toList_some,
        List.map_cons, List.map_nil]
    obtain rfl : n = nameOr (.text given) "result" := by simpa [Item.assigned] using hn
    exact .inl (stepBinds_nameOr _ (.inl hk) hnames hvalues (by simp))
  | perform => simp [Item.assigned] at hn
  | conditional hk hc he hb hy =>
    exact below (by simp [constructFlows, hk]) hy (by simpa [Item.assigned] using hn)
  | alternative hk hc he hb hy hn' =>
    simp only [blockAssigned_cons, Item.assigned, assigned_filled, blockAssigned_nil, List.append_nil,
      List.mem_append] at hn
    rcases hn with hyes | hno
    · exact below (by simp [constructFlows, hk]) hy hyes
    · exact below (by simp [constructFlows, hk]) hn' hno
  | forEach hk hr hc hl hi hb hrun =>
    exact below (by simp [constructFlows, hk, hr]) hrun (by simpa [Item.assigned] using hn)
  | forIndexed hk hr hc hl hi hb hrun =>
    exact below (by simp [constructFlows, hk, hr]) hrun (by simpa [Item.assigned] using hn)
  | bounded hk hr hc hl hb hrun =>
    exact below (by simp [constructFlows, hk, hr]) hrun (by simpa [Item.assigned] using hn)
  | counted hk hr hc hl hb hrun =>
    exact below (by simp [constructFlows, hk, hr]) hrun (by simpa [Item.assigned] using hn)
  | guarded hk hc hb hrun hh hf =>
    rw [blockAssigned_cons, blockAssigned_append, List.mem_append, List.mem_append] at hn
    rcases hn with hbody | hhandler | hcleanup
    · exact below (by simp [constructFlows, hk]) hrun (by simpa [Item.assigned] using hbody)
    · cases hh with
      | handled hflow hb' hrun' =>
        exact below (by simp [constructFlows, hk, hflow]) hrun' (by simpa [Item.assigned] using hhandler)
      | absent => simp at hhandler
      | ignored => simp [Item.assigned] at hhandler
    · cases hf with
      | cleaned hflow hrun' =>
        exact below (by simp [constructFlows, hk, hflow]) hrun' (by simpa [Item.assigned] using hcleanup)
      | absent => simp at hcleanup
  | emptyGroup => simp [Item.assigned] at hn
  | @group parallel named functions _ s₁ _ _ _ hk hr hc he hbranches ho hh hf hb =>
    have hflows := constructFlows_of_named hk hr hbranches
    simp only [blockAssigned_append, assigned_hoisted, assigned_afterHoisted, List.nil_append,
      List.mem_append, blockAssigned_cons, Item.assigned, blockAssigned_nil, List.append_nil] at hn
    rcases hn with hfunctions | houtput
    · obtain ⟨branch, hmem, hbinds⟩ := branches_assigned (fun branch hmem {s b s'} hrun =>
        hnested branch.branch.flow (by rw [hflows]; exact List.mem_map.mpr ⟨branch, hmem, rfl⟩) hrun)
        hf n hfunctions
      refine .inr ⟨branch.branch.flow, ?_, hbinds⟩
      rw [hflows]
      exact List.mem_map.mpr ⟨branch, hmem, rfl⟩
    · have hvalues : step.boundValues = .ok (parallel.outputs.map .text) := by
        simp only [Step.boundValues, hk, mergedOutputs, hr, Option.elim_some]
      exact .inl (stepBinds_of_mem hvalues (List.mem_map.mpr ⟨n, houtput, rfl⟩) (outputs_ne_empty houtput))

/-- A walk that enters a step finds what is below it. -/
theorem steps_of_enters {enters : Step → Bool} {levels : Nat} {flow below : Flow} {entry : Value}
    (hentry : entry ∈ flow) (hstep : entry.step? = some step) (henters : enters step = true)
    (hc : step.isSkipped = false) (hbelow : below ∈ constructFlows step) {x : Step}
    (hx : x ∈ below.steps enters levels) : x ∈ flow.steps enters (levels + 1) := by
  have hne : below ≠ [] := by
    rintro rfl
    cases levels <;> simp [Flow.steps] at hx
  obtain ⟨child, hchild, rfl⟩ := child_of_mem_constructFlows hc hbelow hne
  rw [Flow.steps]
  refine List.mem_flatMap.mpr ⟨entry, hentry, ?_⟩
  rw [hstep, Option.elim_some, if_pos henters]
  exact List.mem_cons_of_mem _ (List.mem_flatMap.mpr ⟨child, hchild, hx⟩)

theorem steps_of_constructFlows {levels : Nat} {flow below : Flow} {entry : Value}
    (hentry : entry ∈ flow) (hstep : entry.step? = some step) (hc : step.isSkipped = false)
    (hbelow : below ∈ constructFlows step) {x : Step} (hx : x ∈ below.steps (fun _ => true) levels) :
    x ∈ flow.steps (fun _ => true) (levels + 1) :=
  steps_of_enters hentry hstep rfl hc hbelow hx

theorem step_mem_steps {levels : Nat} {flow : Flow} {entry : Value} (enters : Step → Bool)
    (hentry : entry ∈ flow) (hstep : entry.step? = some step) : step ∈ flow.steps enters (levels + 1) := by
  rw [Flow.steps]
  refine List.mem_flatMap.mpr ⟨entry, hentry, ?_⟩
  rw [hstep, Option.elim_some]
  exact List.mem_cons_self

/-- A walk that enters more levels visits the same steps and more. -/
theorem steps_mono {levels more : Nat} (h : levels ≤ more) {flow : Flow} (enters : Step → Bool) :
    flow.steps enters levels ⊆ flow.steps enters more := by
  induction levels generalizing flow more with
  | zero =>
    intro x hx
    simp [Flow.steps] at hx
  | succ levels ih =>
    obtain ⟨more, rfl⟩ : ∃ k, more = k + 1 := ⟨more - 1, by omega⟩
    intro x hx
    rw [Flow.steps] at hx ⊢
    obtain ⟨entry, hentry, hx⟩ := List.mem_flatMap.mp hx
    refine List.mem_flatMap.mpr ⟨entry, hentry, ?_⟩
    cases hstep : entry.step? with
    | none => simp [hstep] at hx
    | some step =>
      rw [hstep, Option.elim_some] at hx
      rw [Option.elim_some]
      split_ifs at hx ⊢
      · rcases List.mem_cons.mp hx with rfl | hx
        · exact List.mem_cons_self
        · obtain ⟨child, hchild, hx⟩ := List.mem_flatMap.mp hx
          exact List.mem_cons_of_mem _ (List.mem_flatMap.mpr ⟨child, hchild, ih (by omega) hx⟩)
      · exact hx

/-- The names that a flow assigns to are bound by steps that the walk visits. -/
theorem flowBlock_assigned {levels : Nat} {flow : Flow}
    (hnames : ∀ step ∈ flow.steps (fun _ => true) levels, step.namesResults = true)
    (h : (flowBlock ctx levels flow).Runs s b s') :
    ∀ n ∈ blockAssigned b, ∃ step ∈ flow.steps (fun _ => true) levels, StepBinds step n := by
  induction levels generalizing flow s b s' with
  | zero =>
    obtain ⟨⟨text, rfl⟩, -⟩ := flowBlock_zero_run h
    simp [Item.assigned]
  | succ levels ih =>
    intro n hn
    obtain ⟨item, hitem, hn⟩ := mem_blockAssigned.mp hn
    obtain ⟨entry, hentry, t, body, t', hrun, hmem⟩ := mem_each h hitem
    have hbody : n ∈ blockAssigned body := mem_blockAssigned.mpr ⟨item, hmem, hn⟩
    obtain ⟨step, hstep, hrun⟩ | ⟨-, ⟨text, rfl⟩, -⟩ := entry_run hrun
    · cases hskip : step.isSkipped with
      | true =>
        obtain ⟨⟨text, rfl⟩, -⟩ := hrun.of_isSkipped hskip
        simp [Item.assigned] at hbody
      | false =>
        have hflow : ∀ below ∈ constructFlows step, ∀ {s b s'}, (flowBlock ctx levels below).Runs s b s' →
            ∀ n ∈ blockAssigned b, ∃ x ∈ below.steps (fun _ => true) levels, StepBinds x n :=
          fun below hbelow {_ _ _} hrun => ih (fun x hx =>
            hnames x (steps_of_constructFlows hentry hstep hskip hbelow hx)) hrun
        have hown : step ∈ flow.steps (fun _ => true) (levels + 1) := step_mem_steps _ hentry hstep
        obtain hbinds | ⟨below, hbelow, x, hx, hbinds⟩ :=
          hrun.assigned (hnames step hown) hflow n hbody
        · exact ⟨step, hown, hbinds⟩
        · exact ⟨x, steps_of_constructFlows hentry hstep hskip hbelow hx, hbinds⟩
    · simp [Item.assigned] at hbody

end Assigned

/-! ## The names that the walk finds -/

section Found

variable {ctx : Context} {flow : Flow} {levels : Nat} {names : List String}

theorem mem_distinctFrom {seen : List String} {n : String} :
    n ∈ distinctFrom seen names ↔ n ∈ names ∧ n ∉ seen := by
  induction names generalizing seen with
  | nil => simp [distinctFrom]
  | cons name rest ih =>
    rw [distinctFrom]
    split_ifs with hseen
    · have hname : name ∈ seen := List.contains_iff_mem.mp hseen
      rw [ih, List.mem_cons]
      constructor
      · rintro ⟨hn, hs⟩
        exact ⟨.inr hn, hs⟩
      · rintro ⟨rfl | hn, hs⟩
        · exact absurd hname hs
        · exact ⟨hn, hs⟩
    · have hname : name ∉ seen := fun h => hseen (List.contains_iff_mem.mpr h)
      rw [List.mem_cons, ih, List.mem_cons, List.mem_cons]
      constructor
      · rintro (rfl | ⟨hn, hs⟩)
        · exact ⟨.inl rfl, hname⟩
        · exact ⟨.inr hn, fun h => hs (.inr h)⟩
      · rintro ⟨rfl | hn, hs⟩
        · exact .inl rfl
        · by_cases he : n = name
          · exact .inl he
          · exact .inr ⟨hn, fun h => h.elim he hs⟩

theorem nodup_distinctFrom (seen names : List String) : (distinctFrom seen names).Nodup := by
  induction names generalizing seen with
  | nil => exact List.nodup_nil
  | cons name rest ih =>
    rw [distinctFrom]
    split_ifs
    · exact ih seen
    · rw [List.nodup_cons, mem_distinctFrom]
      exact ⟨fun h => h.2 List.mem_cons_self, ih _⟩

/-- The distinct names are those that have not been seen, each where it occurs first. -/
theorem distinctFrom_eq_eraseDups (seen names : List String) :
    distinctFrom seen names = (names.filter (· ∉ seen)).eraseDups := by
  induction names generalizing seen with
  | nil => rfl
  | cons name rest ih =>
    rw [distinctFrom]
    by_cases hname : name ∈ seen
    · rw [if_pos (List.contains_iff_mem.mpr hname), ih, List.filter_cons_of_neg (by simpa using hname)]
    · rw [if_neg fun h => hname (List.contains_iff_mem.mp h), ih, List.filter_cons_of_pos (by simpa using hname),
        List.eraseDups_cons, List.filter_filter]
      congr 2
      apply List.filter_congr
      intro n _
      simp [beq_eq_decide]

/-- Every name that a visited step binds is found. -/
theorem mem_boundNames (h : flow.boundNames false levels = .ok names) {step : Step} {n : String}
    (hstep : step ∈ flow.steps (fun _ => true) levels) (hbinds : StepBinds step n) : n ∈ names := by
  unfold Flow.boundNames at h
  obtain ⟨found, hfound, h⟩ := bind_eq_ok.mp h
  obtain rfl := Except.ok.inj h
  obtain ⟨own, hown, hn⟩ := hbinds
  rw [← Flow.visits_walk _ _ _ ""] at hstep
  obtain ⟨visit, hvisit, rfl⟩ := List.mem_map.mp hstep
  obtain ⟨part, hpart, hnames⟩ := exists_result_of_mem hfound hvisit
  rw [hown] at hnames
  obtain rfl := Except.ok.inj hnames
  rw [mem_distinctFrom]
  exact ⟨List.mem_flatten.mpr ⟨own, hpart, hn⟩, List.not_mem_nil⟩

/-- The name that a branch returns is bound by one of its own steps. -/
theorem stepBinds_of_lastBoundName? {name : String} (h : flow.lastBoundName? = .ok (some name)) :
    ∃ entry ∈ flow, ∃ step, entry.step? = some step ∧ StepBinds step name := by
  unfold Flow.lastBoundName? at h
  obtain ⟨found, hfound, h⟩ := bind_eq_ok.mp h
  have hlast : found.flatten.getLast? = some name := Except.ok.inj h
  obtain ⟨own, hown, hname⟩ := List.mem_flatten.mp (List.mem_of_getLast? hlast)
  obtain ⟨step, hstep, hnames⟩ := exists_of_result_mem hfound hown
  obtain ⟨entry, hentry, hstep⟩ := List.mem_filterMap.mp hstep
  exact ⟨entry, hentry, step, hstep, own, hnames, hname⟩

end Found

end FlowScript.Program
