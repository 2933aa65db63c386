import FlowScript.Proofs.Leaf
import FlowScript.Proofs.TransformForms
import FlowScript.Proofs.Wordwise
import Mathlib.Data.List.Induction

/-!
# Fields of a filter

The condition of a filter has bare names, and the scope decides which of them are variables and which are fields of
the item. A transform brings its output into scope before it translates the condition, so a field with the name of
the output is read as the variable. One main statement is that a scope shows in the text of a condition exactly
through its bare names. The other one compares two steps that store the same transform under two new names: their
filters are the same exactly if neither of the names is a bare name of the condition.
-/
namespace FlowScript.Expression

/-! ## The parts of a condition -/

/-- A part of an expression: text that is kept, protected text, or a bare name. -/
inductive Fragment where
  | plain (text : List Char)
  | shield (part : Protected)
  | bare (name : List Char)

namespace Fragment

def name? : Fragment → Option String
  | .bare w => some (String.ofList w)
  | _ => none

/-- A bare name is a field of the target unless it is bound. -/
def text (bound : String → Bool) (target : String) (lookup : List Char → List Char) : Fragment → List Char
  | .plain cs => cs
  | .shield part => part.code lookup
  | .bare w => if bound (String.ofList w) then w else fieldText target w

end Fragment

/-- Whether a word is the name of a field or a variable by its form and by what is around it. -/
def isBare (before : Option Char) (w : List Char) (rest : List Piece) : Bool :=
  startsName w && !blocksField before && !isCallOrArgument rest &&
    !(fixedNames.contains (String.ofList w) || isKeyword (String.ofList w))

def pieceFragments (before : Option Char) : List Piece → List Fragment
  | [] => []
  | .other c :: rest => .plain [c] :: pieceFragments (some c) rest
  | .word w :: rest => (if isBare before w rest then .bare w else .plain w) :: pieceFragments w.getLast? rest

def segmentFragments (cs : List Char) : List Fragment := pieceFragments none (pieces (exchange cs))

def fragments (condition : String) : List Fragment :=
  let parted := split condition.toList
  (parted.parts.flatMap fun part => segmentFragments part.1 ++ [.shield part.2]) ++ segmentFragments parted.tail

/-- The bare names of a condition. They do not depend on a scope. -/
def bareNames (condition : String) : List String := (fragments condition).filterMap Fragment.name?

section Texts

variable (bound : String → Bool) (target : String) (lookup : List Char → List Char)

theorem readFields_eq (before : Option Char) (ps : List Piece) : readFields bound target before ps =
    (pieceFragments before ps).flatMap (Fragment.text bound target lookup) := by
  induction ps generalizing before with
  | nil => rfl
  | cons p ps ih =>
    cases p with
    | other c => rw [readFields, ih, pieceFragments, List.flatMap_cons]; rfl
    | word w =>
      rw [readFields, ih, pieceFragments, List.flatMap_cons]
      congr 1
      cases hbare : isBare before w ps <;> cases hbound : bound (String.ofList w) <;>
        simp_all [isBare, Fragment.text]

theorem code_eq_fragments (condition : String) : code bound (some target) condition lookup =
    String.ofList (Text.trim ((fragments condition).flatMap (Fragment.text bound target lookup))) := by
  have hsegment (cs : List Char) : segment bound (some target) cs =
      (segmentFragments cs).flatMap (Fragment.text bound target lookup) := readFields_eq bound target lookup none _
  simp only [code, fragments, hsegment, List.flatMap_append, List.flatMap_assoc, List.flatMap_singleton, Fragment.text]

end Texts

/-! ## Where a scope shows -/

/-- A blank is no part of a word. -/
theorem isBlank_of_isWord {c : Char} (h : Text.isWord c = true) : Text.isBlank c = false := by
  have hwords : ∀ n ∈ [0x20, 0x09, 0x0A, 0x0B, 0x0C, 0x0D, 0x1C, 0x1D, 0x1E, 0x1F, 0x85, 0xA0, 0x1680, 0x2000, 0x2001,
      0x2002, 0x2003, 0x2004, 0x2005, 0x2006, 0x2007, 0x2008, 0x2009, 0x200A, 0x2028, 0x2029, 0x202F, 0x205F, 0x3000],
      Text.isWord (Char.ofNat n) = false := by
    decide +kernel
  rw [← Bool.not_eq_true]
  intro hblank
  have hspace : (c == ' ') = true ↔ c.toNat = 0x20 := by
    rw [beq_iff_eq, ← Char.toNat_inj]
    rfl
  simp only [Text.isBlank, Bool.or_eq_true, Bool.and_eq_true, decide_eq_true_eq, hspace, beq_iff_eq] at hblank
  have hmem := hwords c.toNat (by simp only [List.mem_cons, List.not_mem_nil, or_false]; omega)
  rw [Char.ofNat_toNat, h] at hmem
  cases hmem

/-- The words among the pieces of a text are not empty, and all their characters are those of words. -/
theorem isWord_of_mem_pieces {cs w : List Char} (h : .word w ∈ pieces cs) :
    w ≠ [] ∧ ∀ c ∈ w, Text.isWord c = true := by
  induction cs generalizing w with
  | nil => cases h
  | cons c cs ih =>
    rw [pieces] at h
    split_ifs at h with hc
    · split at h
      · rename_i v rest hpieces
        rcases List.mem_cons.mp h with he | hmem
        · obtain ⟨-, hv⟩ := ih (hpieces ▸ List.mem_cons_self)
          obtain rfl := Piece.word.inj he
          exact ⟨List.cons_ne_nil _ _, List.forall_mem_cons.mpr ⟨hc, hv⟩⟩
        · exact ih (hpieces ▸ List.mem_cons_of_mem _ hmem)
      · rcases List.mem_cons.mp h with he | hmem
        · obtain rfl := Piece.word.inj he
          exact ⟨List.cons_ne_nil _ _, by simpa using hc⟩
        · exact ih hmem
    · rcases List.mem_cons.mp h with he | hmem
      · cases he
      · exact ih hmem

theorem mem_pieces_of_bare {before : Option Char} {ps : List Piece} {w : List Char}
    (h : .bare w ∈ pieceFragments before ps) : .word w ∈ ps := by
  induction ps generalizing before with
  | nil => cases h
  | cons p ps ih =>
    cases p with
    | other c =>
      rcases List.mem_cons.mp h with he | hmem
      · cases he
      · exact List.mem_cons_of_mem _ (ih hmem)
    | word v =>
      rcases List.mem_cons.mp h with he | hmem
      · split_ifs at he
        obtain rfl := Fragment.bare.inj he
        exact List.mem_cons_self
      · exact List.mem_cons_of_mem _ (ih hmem)

/-- A bare name is a word. -/
theorem isWord_of_bare {condition : String} {w : List Char} (h : .bare w ∈ fragments condition) :
    w ≠ [] ∧ ∀ c ∈ w, Text.isWord c = true := by
  have hsegment {cs : List Char} (hmem : .bare w ∈ segmentFragments cs) :
      w ≠ [] ∧ ∀ c ∈ w, Text.isWord c = true := isWord_of_mem_pieces (mem_pieces_of_bare hmem)
  rw [fragments, List.mem_append, List.mem_flatMap] at h
  rcases h with ⟨part, -, hmem⟩ | hmem
  · rcases List.mem_append.mp hmem with hmem | hmem
    · exact hsegment hmem
    · cases List.mem_singleton.mp hmem
  · exact hsegment hmem

/-- The text of a bare name ends in a bracket exactly if the name is a field, and not in a blank in any case. -/
theorem exists_text_bare (bound : String → Bool) (target : String) (lookup : List Char → List Char) {w : List Char}
    (hne : w ≠ []) (hw : ∀ c ∈ w, Text.isWord c = true) :
    ∃ front c, (Fragment.bare w).text bound target lookup = front ++ [c] ∧ Text.isBlank c = false ∧
      (c = ']' ↔ bound (String.ofList w) = false) := by
  rw [Fragment.text]
  cases bound (String.ofList w) with
  | false =>
    refine ⟨target.toList ++ '[' :: '\'' :: (w ++ ['\'']), ']', ?_, by decide, by simp⟩
    simp [fieldText]
  | true =>
    have hlast := hw _ (List.getLast_mem hne)
    refine ⟨w.dropLast, w.getLast hne, (List.dropLast_concat_getLast hne).symm, isBlank_of_isWord hlast, ?_⟩
    have hbracket : w.getLast hne ≠ ']' := by
      intro he
      rw [he] at hlast
      exact absurd hlast (by decide +kernel)
    simpa using hbracket

theorem trim_append_cons {c : Char} (hc : Text.isBlank c = false) (front rest : List Char) :
    Text.trim (front ++ c :: rest) = Text.trimStart front ++ c :: Text.trimEnd rest := by
  have hdrop (cs ds : List Char) : (cs ++ c :: ds).dropWhile Text.isBlank = cs.dropWhile Text.isBlank ++ c :: ds := by
    rw [List.dropWhile_append]
    split_ifs with hempty
    · rw [List.isEmpty_iff.mp hempty, List.dropWhile_cons_of_neg (by simp [hc]), List.nil_append]
    · rfl
  rw [Text.trim, Text.trimStart, hdrop, Text.trimEnd, List.reverse_append, List.reverse_cons, List.append_assoc,
    List.singleton_append, hdrop]
  simp [Text.trimEnd, Text.trimStart]

section Scopes

variable {bound bound' : String → Bool} {target : String} {lookup : List Char → List Char}

/-- Behind the same rest, the last character of a bare name tells whether it is bound. -/
theorem bound_eq_of_last {front front' rest w : List Char} (hne : w ≠ []) (hw : ∀ c ∈ w, Text.isWord c = true)
    (h : Text.trim (front ++ (Fragment.bare w).text bound target lookup ++ rest) =
      Text.trim (front' ++ (Fragment.bare w).text bound' target lookup ++ rest)) :
    bound (String.ofList w) = bound' (String.ofList w) := by
  obtain ⟨first, c, htext, hc, hbracket⟩ := exists_text_bare bound target lookup hne hw
  obtain ⟨first', c', htext', hc', hbracket'⟩ := exists_text_bare bound' target lookup hne hw
  have hshape (a b : List Char) (d : Char) : a ++ (b ++ [d]) ++ rest = (a ++ b) ++ d :: rest := by simp
  rw [htext, htext', hshape, hshape, trim_append_cons hc, trim_append_cons hc'] at h
  obtain ⟨-, htail⟩ := List.append_inj' h rfl
  obtain ⟨rfl, -⟩ := List.cons.inj htail
  have hiff : bound (String.ofList w) = false ↔ bound' (String.ofList w) = false := hbracket.symm.trans hbracket'
  rwa [← Bool.not_eq_true, ← Bool.not_eq_true, not_iff_not, ← Bool.eq_iff_iff] at hiff

/-- Two scopes that give the same text to some parts and to what follows agree on the names in these parts. -/
theorem bound_eq_of_trim_eq {parts : List Fragment} {rest : List Char}
    (hwords : ∀ w, .bare w ∈ parts → w ≠ [] ∧ ∀ c ∈ w, Text.isWord c = true)
    (h : Text.trim (parts.flatMap (Fragment.text bound target lookup) ++ rest) =
      Text.trim (parts.flatMap (Fragment.text bound' target lookup) ++ rest)) :
    ∀ w, .bare w ∈ parts → bound (String.ofList w) = bound' (String.ofList w) := by
  -- From the end on: behind the last name that is read in two ways both texts are the same.
  induction parts using List.reverseRecOn generalizing rest with
  | nil => simp
  | append_singleton parts last ih =>
    have hfront : ∀ w, .bare w ∈ parts → w ≠ [] ∧ ∀ c ∈ w, Text.isWord c = true :=
      fun w hw => hwords w (List.mem_append_left _ hw)
    rw [List.flatMap_append, List.flatMap_append, List.flatMap_singleton, List.flatMap_singleton] at h
    have hlast : ∀ w, last = .bare w → bound (String.ofList w) = bound' (String.ofList w) := by
      rintro w rfl
      obtain ⟨hne, hw⟩ := hwords w (by simp)
      exact bound_eq_of_last hne hw h
    have htext : last.text bound target lookup = last.text bound' target lookup := by
      cases last with
      | plain | shield => rfl
      | bare w => rw [Fragment.text, Fragment.text, hlast w rfl]
    rw [htext, List.append_assoc, List.append_assoc] at h
    intro w hw
    rcases List.mem_append.mp hw with hw | hw
    · exact ih hfront h w hw
    · exact hlast w (List.mem_singleton.mp hw).symm

theorem mem_bareNames {condition name : String} :
    name ∈ bareNames condition ↔ ∃ w, .bare w ∈ fragments condition ∧ String.ofList w = name := by
  rw [bareNames, List.mem_filterMap]
  constructor
  · rintro ⟨part, hmem, hname⟩
    cases part with
    | plain | shield => cases hname
    | bare w => exact ⟨w, hmem, Option.some.inj hname⟩
  · rintro ⟨w, hmem, rfl⟩
    exact ⟨.bare w, hmem, rfl⟩

/-- A scope shows in the text of a condition through its bare names, and each of them does. -/
theorem code_eq_iff (condition : String) :
    code bound (some target) condition lookup = code bound' (some target) condition lookup ↔
      ∀ name ∈ bareNames condition, bound name = bound' name := by
  rw [code_eq_fragments, code_eq_fragments]
  constructor
  · intro h name hname
    obtain ⟨w, hmem, rfl⟩ := mem_bareNames.mp hname
    have htexts : Text.trim ((fragments condition).flatMap (Fragment.text bound target lookup) ++ []) =
        Text.trim ((fragments condition).flatMap (Fragment.text bound' target lookup) ++ []) := by
      rw [List.append_nil, List.append_nil]
      exact String.ofList_injective h
    exact bound_eq_of_trim_eq (fun w hw => isWord_of_bare hw) htexts w hmem
  · intro h
    have htexts : (fragments condition).flatMap (Fragment.text bound target lookup) =
        (fragments condition).flatMap (Fragment.text bound' target lookup) := by
      refine List.flatMap_congr fun part hpart => ?_
      cases part with
      | plain | shield => rfl
      | bare w => rw [Fragment.text, Fragment.text, h _ (mem_bareNames.mpr ⟨w, hpart, rfl⟩)]
    rw [htexts]

end Scopes

end FlowScript.Expression

namespace FlowScript.Construct.Transform

/-! ## Transforms that differ in their outputs -/

section Same

variable {fields fields' : Fields} (hsame : ∀ key, key ∉ outputKeys → fields.get? key = fields'.get? key)

include hsame

theorem get_eq_of_same {key : String} (hkey : key ∉ outputKeys) : fields.get key = fields'.get key := by
  rw [Fields.get, Fields.get, hsame key hkey]

theorem flatParts_eq_of_same : flatParts fields = flatParts fields' := by
  have hparams (op : Operation) : flatParams fields op = flatParams fields' op := by
    refine List.filterMap_congr fun key hkey => ?_
    have hform : key ∉ outputKeys := by
      intro hmem
      have hsubset : outputKeys ⊆ Operation.formKeys := by decide
      exact op.not_mem_flatKeys (hsubset hmem) hkey
    rw [hsame key hform]
  simp only [flatParts, get_eq_of_same hsame (by decide : "operation" ∉ outputKeys), hparams]

/-- The same fields but for the output are the same transform but for the output. -/
theorem ofFields_of_same {transform : Transform} {output : Value}
    (houtput : fields'.firstOf? outputKeys = some output) (h : ofFields fields = .ok transform) :
    ofFields fields' = .ok { transform with output } := by
  obtain ⟨flat, hflat, h⟩ := bind_eq_ok.mp h
  obtain rfl := Except.ok.inj h
  have hinput := get_eq_of_same hsame (by decide : "input" ∉ outputKeys)
  have hsource := get_eq_of_same hsame (by decide : "source" ∉ outputKeys)
  have hchain := get_eq_of_same hsame (by decide : "operations" ∉ outputKeys)
  rw [ofFields, ← flatParts_eq_of_same hsame, hflat, houtput]
  simp only [chainParts, hchain, Fields.firstOf, sourceKeys, Fields.firstOf?, hinput, hsource]
  rfl

end Same

/-- The condition of the first stage, where this is a filter by a text. -/
def firstCondition? (transform : Transform) : Option String :=
  match transform.stages with
  | ⟨.filter, argument, params⟩ :: _ =>
    (Stage.argumentOr ⟨.filter, argument, params⟩ ["condition", "predicate", "where"]).text?
  | _ => none

theorem stages_of_firstCondition? {transform : Transform} {condition : String}
    (h : transform.firstCondition? = some condition) :
    ∃ stage rest, transform.stages = stage :: rest ∧ stage.operation = .filter ∧
      (stage.argumentOr ["condition", "predicate", "where"]).text? = some condition := by
  unfold firstCondition? at h
  split at h
  · rename_i argument params rest hstages
    exact ⟨_, rest, hstages, rfl, h⟩
  · cases h

end FlowScript.Construct.Transform

namespace FlowScript.Program

open Construct Pass

/-! ## Passes that have an answer together -/

/-- If the one pass has an answer in some state, the other one has one in every state. -/
def Vouches {α β : Type} (p : Pass α) (q : Pass β) : Prop :=
  ∀ ⦃s a s'⦄, p.Runs s a s' → ∀ t, ∃ b t', q.Runs t b t'

namespace Vouches

variable {α β γ δ : Type} {p : Pass α} {q : Pass β}

protected theorem pure (b : β) : Vouches p (pure b : Pass β) :=
  fun _ _ _ _ t => ⟨b, t, runs_pure.mpr ⟨rfl, rfl⟩⟩

protected theorem modify (f : State → State) : Vouches p (modify f : Pass PUnit) :=
  fun _ _ _ _ t => ⟨.unit, f t, runs_modify.mpr rfl⟩

protected theorem get : Vouches p (get : Pass State) := fun _ _ _ _ t => ⟨t, t, runs_get.mpr ⟨rfl, rfl⟩⟩

protected theorem lift (e : Except Fault α) : Vouches (liftM e : Pass α) (liftM e : Pass α) := by
  intro s a s' h t
  obtain ⟨he, -⟩ := runs_lift.mp h
  exact ⟨a, t, runs_lift.mpr ⟨he, rfl⟩⟩

protected theorem bind {f : α → Pass γ} {g : β → Pass δ} (hp : Vouches p q) (hf : ∀ a b, Vouches (f a) (g b)) :
    Vouches (p >>= f) (q >>= g) := by
  intro s c s' h t
  obtain ⟨a, r, ha, hc⟩ := runs_bind.mp h
  obtain ⟨b, t₁, hb⟩ := hp ha t
  obtain ⟨d, t', hd⟩ := hf a b hc t₁
  exact ⟨d, t', runs_bind.mpr ⟨b, t₁, hb, hd⟩⟩

/-- Where both look up the same, both go on with the same. -/
theorem lift_bind {e : Except Fault α} {f : α → Pass γ} {g : α → Pass δ} (hf : ∀ a, Vouches (f a) (g a)) :
    Vouches (liftM e >>= f) (liftM e >>= g) := by
  intro s c s' h t
  obtain ⟨a, r, ha, hc⟩ := runs_bind.mp h
  obtain ⟨he, rfl⟩ := runs_lift.mp ha
  obtain ⟨d, t', hd⟩ := hf a hc t
  exact ⟨d, t', runs_bind.mpr ⟨a, t, runs_lift.mpr ⟨he, rfl⟩, hd⟩⟩

theorem ok_bind {a : α} {b : β} {f : α → Pass γ} {g : β → Pass δ} (hf : Vouches (f a) (g b)) :
    Vouches (liftM (Except.ok a : Except Fault α) >>= f) (liftM (Except.ok b : Except Fault β) >>= g) := by
  intro s c s' h t
  obtain ⟨a', r, ha, hc⟩ := runs_bind.mp h
  obtain ⟨he, rfl⟩ := runs_lift.mp ha
  obtain rfl := Except.ok.inj he
  obtain ⟨d, t', hd⟩ := hf hc t
  exact ⟨d, t', runs_bind.mpr ⟨b, t, runs_lift.mpr ⟨rfl, rfl⟩, hd⟩⟩

protected theorem ite {c : Prop} [Decidable c] {p' : Pass α} {q' : Pass β} (hp : Vouches p q) (hq : Vouches p' q') :
    Vouches (if c then p else p') (if c then q else q') := by
  split_ifs
  · exact hp
  · exact hq

end Vouches

section Vouches

variable (ctx : Context)

theorem valueCode_vouches (v : Value) : Vouches (valueCode ctx v) (valueCode ctx v) := by
  unfold valueCode
  refine .bind (.lift _) fun _ _ => .ite (.bind (.modify _) fun _ _ => ?_) ?_
  all_goals exact .bind (.lift _) fun _ _ => .pure _

theorem collectionCode_vouches (v : Value) : Vouches (collectionCode ctx v) (collectionCode ctx v) := by
  unfold collectionCode
  split
  · exact .pure _
  · split
    · exact .pure _
    · exact valueCode_vouches ctx v

theorem expressionCode_vouches (target : Option String) (v : Value) :
    Vouches (expressionCode ctx target v) (expressionCode ctx target v) := by
  unfold expressionCode
  split
  · exact .ite (.bind (.modify _) fun _ _ => .bind .get fun _ _ => .pure _) (.bind .get fun _ _ => .pure _)
  · exact valueCode_vouches ctx _

theorem fieldLiteral_vouches (v : Value) : Vouches (fieldLiteral v) (fieldLiteral v) :=
  .ite (.pure _) (.bind (.lift _) fun _ _ => .pure _)

/-- Whether a stage has a text does not depend on the data. -/
theorem stageCode_vouches (stage : Stage) (data data' : String) :
    Vouches (stageCode ctx stage data) (stageCode ctx stage data') := by
  have hunique : Vouches (uniqueCode stage data) (uniqueCode stage data') := by
    refine .bind (.modify _) fun _ _ => ?_
    split
    · exact .pure _
    · exact .pure _
    · exact .bind (fieldLiteral_vouches _) fun _ _ => .pure _
  have hbound (v : Value) : Vouches (boundCode ctx v) (boundCode ctx v) := .ite (.pure _) (valueCode_vouches ctx v)
  unfold stageCode
  cases stage.operation with
  | filter =>
    refine .ite (.bind (.modify _) fun _ _ => .pure _) ?_
    exact .bind (expressionCode_vouches ctx _ _) fun _ _ => .pure _
  | sort =>
    refine .bind (.modify _) fun _ _ => .lift_bind fun _ => .ite (.bind (.modify _) fun _ _ => ?_) ?_
    all_goals exact .bind (fieldLiteral_vouches _) fun _ _ => .pure _
  | map =>
    refine .ite (.bind (valueCode_vouches ctx _) fun _ _ => .pure _) (.ite (.bind (.modify _) fun _ _ => .pure _) ?_)
    exact .bind (expressionCode_vouches ctx _ _) fun _ _ => .pure _
  | reduce =>
    refine .bind (.modify _) fun _ _ => .ite (.bind (.modify _) fun _ _ => ?_) ?_
    all_goals
      exact .bind (expressionCode_vouches ctx _ _) fun _ _ => .bind (valueCode_vouches ctx _) fun _ _ => .pure _
  | slice => exact .bind (hbound _) fun _ _ => .bind (hbound _) fun _ _ => .pure _
  | unique => exact hunique
  | distinct => exact hunique
  | flatten => exact .bind (.modify _) fun _ _ => .bind (valueCode_vouches ctx _) fun _ _ => .pure _
  | groupBy => exact .bind (.modify _) fun _ _ => .bind (fieldLiteral_vouches _) fun _ _ => .pure _

theorem stagesBlock_vouches (output output' data data' : String) (stages : List Stage) :
    Vouches (stagesBlock ctx output data stages) (stagesBlock ctx output' data' stages) := by
  induction stages generalizing data data' with
  | nil => exact .pure _
  | cons stage rest ih =>
    exact .bind (stageCode_vouches ctx stage data data') fun _ _ => .bind (ih output output') fun _ _ => .pure _

theorem unknownOperations_vouches (entries : List Value) :
    Vouches (each unknownOperation entries) (each unknownOperation entries) := by
  induction entries with
  | nil => exact .pure _
  | cons entry rest ih =>
    have hentry : Vouches (unknownOperation entry) (unknownOperation entry) :=
      .bind (.lift _) fun _ _ => .bind (.modify _) fun _ _ => .pure _
    exact .bind hentry fun _ _ => .bind ih fun _ _ => .pure _

/-- Whether a transform is compiled does not depend on the name of its output. -/
theorem transformBlock_vouches {step step' : Step} {transform : Transform} {output output' : String}
    (hread : Transform.read? step = .ok (some { transform with output := .text output }))
    (hread' : Transform.read? step' = .ok (some { transform with output := .text output' }))
    (hname' : isIdentifier output' = true) :
    Vouches (transformBlock ctx step) (transformBlock ctx step') := by
  have htarget : targetName (.text output') Transform.defaultOutput "transform output" = pure output' := by
    simp [targetName, Value.identifier?, hname']
  have hsource (name name' : String) :
      Vouches (sourceCode ctx transform.source name) (sourceCode ctx transform.source name') :=
    .ite (.bind (.modify _) fun _ _ => .pure _) (collectionCode_vouches ctx _)
  rw [transformBlock, transformBlock, hread, hread']
  refine .ok_bind ?_
  dsimp only
  rw [htarget]
  refine .bind (.pure _) fun name name' => .bind (hsource name name') fun source source' =>
    .bind (unknownOperations_vouches _) fun _ _ => .bind (.modify _) fun _ _ => .ite (.pure _) ?_
  exact .bind (stagesBlock_vouches ctx name name' source source' _) fun _ _ => .pure _

end Vouches

/-! ## Filters -/

def filterText (data condition : String) : String := "[item for item in " ++ data ++ " if " ++ condition ++ "]"

/-- Whether a name is bound once the output of a transform is. -/
def boundWith (scope : Scope) (output name : String) : Bool := scope.contains name || name == output

variable {ctx : Context} {s s' t t' : State}

theorem filterCode_eq {stage : Stage} {condition data code : String}
    (hcondition : (stage.argumentOr ["condition", "predicate", "where"]).text? = some condition)
    (h : (filterCode ctx stage data).Runs s code s') : code =
      filterText data (Expression.code s.scope.contains (some "item") condition ctx.agent.lookup) := by
  have htext : stage.argumentOr ["condition", "predicate", "where"] = .text condition := by
    cases hvalue : stage.argumentOr ["condition", "predicate", "where"] <;> simp_all [Value.text?]
  simp only [filterCode, htext, Value.isNull, Bool.false_eq_true, if_false, expressionCode, runs_bind, runs_pure] at h
  obtain ⟨text, r, htext, rfl, rfl⟩ := h
  split_ifs at htext
  · simp only [requireImport, runs_bind, runs_modify, runs_get, runs_pure] at htext
    obtain ⟨_, _, rfl, _, _, ⟨rfl, rfl⟩, rfl, rfl⟩ := htext
    rfl
  · simp only [runs_bind, runs_get, runs_pure] at htext
    obtain ⟨_, _, ⟨rfl, rfl⟩, rfl, rfl⟩ := htext
    rfl

/-- The text of a source depends neither on the state nor on the output. -/
theorem sourceCode_unique {source : Value} {output output' data data' : String}
    (h : (sourceCode ctx source output).Runs s data s') (h' : (sourceCode ctx source output').Runs t data' t') :
    data = data' := by
  unfold sourceCode at h h'
  split_ifs at h h'
  · simp only [runs_bind, runs_pure] at h h'
    obtain ⟨_, _, -, rfl, -⟩ := h
    obtain ⟨_, _, -, rfl, -⟩ := h'
    rfl
  · unfold collectionCode at h h'
    cases hreference : source.reference? ctx.agent.lookup with
    | some expression =>
      rw [hreference] at h h'
      exact (runs_pure.mp h).1.trans (runs_pure.mp h').1.symm
    | none =>
      rw [hreference] at h h'
      cases hidentifier : source.identifier? with
      | some name =>
        rw [hidentifier] at h h'
        exact (runs_pure.mp h).1.trans (runs_pure.mp h').1.symm
      | none =>
        rw [hidentifier] at h h'
        obtain ⟨levels, hlevels, rfl⟩ := valueCode_eq h
        obtain ⟨levels', hlevels', rfl⟩ := valueCode_eq h'
        rw [Except.ok.inj (hlevels.symm.trans hlevels')]

/-- A transform that filters first: comments, then the filter over the source, in the scope that has the output. -/
theorem transformBlock_filter {step : Step} {transform : Transform} {output condition : String} {b : Block}
    (hread : Transform.read? step = .ok (some { transform with output := .text output }))
    (hname : isIdentifier output = true) (hfirst : transform.firstCondition? = some condition)
    (h : (transformBlock ctx step).Runs s b s') :
    ∃ (texts : List String) (data : String) (codes : List String),
      (∃ r r', (sourceCode ctx transform.source output).Runs r data r') ∧
      b = texts.map .comment ++ .line (.assign output (filterText data (Expression.code (boundWith s.scope output)
        (some "item") condition ctx.agent.lookup))) :: codes.map fun code => .line (.assign output code) := by
  simp only [transformBlock, hread, runs_bind, runs_lift] at h
  obtain ⟨_, _, ⟨he, rfl⟩, h⟩ := h
  obtain rfl := Except.ok.inj he
  simp only [runs_bind] at h
  obtain ⟨name, r₁, htarget, data, r₂, hsource, comments, r₃, hcomments, _, r₄, hdeclare, h⟩ := h
  obtain ⟨hnamed, htargeted⟩ := targetName_spec htarget
  obtain rfl : name = output := by rw [hnamed, nameOr, Value.identifier?, if_pos hname, Option.getD_some]
  obtain ⟨⟨texts, rfl⟩, hcommented⟩ := unknownOperations_spec hcomments
  have hbinds := ((htargeted.trans (sourceCode_quiet _ _ _ hsource)).trans hcommented).trans (binds_of_declare hdeclare)
  have hscope : r₄.scope.contains = boundWith s.scope name := by
    funext n
    rw [Bool.eq_iff_iff, Scope.contains_iff, hbinds.scope, boundWith, Bool.or_eq_true, Scope.contains_iff, beq_iff_eq]
    simp
  obtain ⟨stage, rest, hstages, hfilter, hcondition⟩ := Transform.stages_of_firstCondition? hfirst
  simp only [hstages, List.isEmpty_cons, Bool.false_eq_true, if_false, stagesBlock, stageCode, hfilter, runs_bind,
    runs_pure] at h
  obtain ⟨_, _, ⟨code, _, hcode, others, _, hothers, rfl, rfl⟩, rfl, rfl⟩ := h
  obtain ⟨⟨codes, -, rfl⟩, -⟩ := stagesBlock_spec hothers
  refine ⟨texts, data, codes, ⟨r₁, r₂, hsource⟩, ?_⟩
  rw [filterCode_eq hcondition hcode, hscope]

theorem filterText_inj {data condition condition' : String} :
    filterText data condition = filterText data condition' ↔ condition = condition' :=
  (String.append_left_inj _).trans (String.append_right_inj _)

/-- The text of a condition in a scope and with an output. -/
def conditionText (ctx : Context) (scope : Scope) (output condition : String) : String :=
  String.ofList (Text.trim ((Expression.fragments condition).flatMap
    (Expression.Fragment.text (boundWith scope output) "item" ctx.agent.lookup)))

theorem code_eq_conditionText (ctx : Context) (scope : Scope) (output condition : String) :
    Expression.code (boundWith scope output) (some "item") condition ctx.agent.lookup =
      conditionText ctx scope output condition :=
  Expression.code_eq_fragments ..

/-- New outputs show in a condition exactly where they are among its bare names. -/
theorem conditionText_eq_iff {scope : Scope} {output output' condition : String} (hnew : output ∉ scope.names)
    (hnew' : output' ∉ scope.names) :
    conditionText ctx scope output condition = conditionText ctx scope output' condition ↔ output = output' ∨
      output ∉ Expression.bareNames condition ∧ output' ∉ Expression.bareNames condition := by
  have hfree : scope.contains output = false := by rwa [← Bool.not_eq_true, Scope.contains_iff]
  have hfree' : scope.contains output' = false := by rwa [← Bool.not_eq_true, Scope.contains_iff]
  rw [← code_eq_conditionText, ← code_eq_conditionText, Expression.code_eq_iff]
  by_cases heq : output = output'
  · simp [heq]
  · simp only [heq, false_or]
    constructor
    · intro h
      constructor
      · intro hmem
        simpa [boundWith, hfree, heq] using h output hmem
      · intro hmem
        simpa [boundWith, hfree', Ne.symm heq] using h output' hmem
    · rintro ⟨hmem, hmem'⟩ name hname
      have hne : (name == output) = false := beq_eq_false_iff_ne.mpr fun he => hmem (he ▸ hname)
      have hne' : (name == output') = false := beq_eq_false_iff_ne.mpr fun he => hmem' (he ▸ hname)
      rw [boundWith, boundWith, hne, hne']

/-- A step that stores the result of a transform under a name. -/
structure Stores (step : Step) (fields : Fields) (output : String) : Prop where
  content : (step.get "data_transform").fields? = some fields
  target : fields.firstOf? Transform.outputKeys = some (.text output)
  named : isIdentifier output = true

theorem Stores.read?_eq {step : Step} {fields : Fields} {transform : Transform} {output : String}
    (h : Stores step fields output) (hread : Transform.ofFields fields = .ok transform) :
    Transform.read? step = .ok (some transform) := by
  rw [Transform.read?, h.content, Option.mapM_some, hread]
  rfl

/-- Two steps that differ in the names of their outputs alone are compiled together or not at all. If they filter first
and neither name is in scope, both filter the same data. A bare name that is not in scope is then a field of the item,
except for the name of the output. So the filters are the same exactly if the outputs are, or neither of them is a bare
name of the condition. -/
theorem filter_of_outputs {step step' : Step} {fields fields' : Fields} {transform : Transform}
    {output output' condition : String} {b : Block} (hstep : Stores step fields output)
    (hstep' : Stores step' fields' output')
    (hsame : ∀ key, key ∉ Transform.outputKeys → fields.get? key = fields'.get? key)
    (hread : Transform.ofFields fields = .ok transform) (hfirst : transform.firstCondition? = some condition)
    (hscope : ∀ name, name ∈ s.scope.names ↔ name ∈ t.scope.names)
    (hnew : output ∉ s.scope.names) (hnew' : output' ∉ s.scope.names) (h : (transformBlock ctx step).Runs s b s') :
    (∃ (b' : Block) (t' : State) (data : String) (comments comments' codes codes' : List String),
      (transformBlock ctx step').Runs t b' t' ∧
      b = comments.map .comment ++ .line (.assign output
        (filterText data (conditionText ctx s.scope output condition))) ::
          codes.map (fun code => .line (.assign output code)) ∧
      b' = comments'.map .comment ++ .line (.assign output'
        (filterText data (conditionText ctx s.scope output' condition))) ::
          codes'.map (fun code => .line (.assign output' code)) ∧
      (filterText data (conditionText ctx s.scope output condition) =
        filterText data (conditionText ctx s.scope output' condition) ↔ output = output' ∨
          output ∉ Expression.bareNames condition ∧ output' ∉ Expression.bareNames condition)) ∧
    ∀ w, .bare w ∈ Expression.fragments condition → String.ofList w ∉ s.scope.names →
      (Expression.Fragment.bare w).text (boundWith s.scope output) "item" ctx.agent.lookup =
        if String.ofList w = output then w else Expression.fieldText "item" w := by
  have hread₁ : Transform.read? step = .ok (some { transform with output := .text output }) :=
    hstep.read?_eq (Transform.ofFields_of_same (fun _ _ => rfl) hstep.target hread)
  have hread₂ : Transform.read? step' = .ok (some { transform with output := .text output' }) :=
    hstep'.read?_eq (Transform.ofFields_of_same hsame hstep'.target hread)
  have hbound : boundWith t.scope output' = boundWith s.scope output' := by
    funext name
    rw [boundWith, boundWith, Bool.eq_iff_iff, Bool.or_eq_true, Bool.or_eq_true, Scope.contains_iff, Scope.contains_iff,
      hscope]
  constructor
  · obtain ⟨b', t', h'⟩ := transformBlock_vouches ctx hread₁ hread₂ hstep'.named h t
    obtain ⟨comments, data, codes, ⟨r, r', hdata⟩, rfl⟩ := transformBlock_filter hread₁ hstep.named hfirst h
    obtain ⟨comments', data', codes', ⟨q, q', hdata'⟩, rfl⟩ := transformBlock_filter hread₂ hstep'.named hfirst h'
    obtain rfl := sourceCode_unique hdata hdata'
    rw [hbound, code_eq_conditionText] at h'
    rw [code_eq_conditionText]
    exact ⟨_, t', data, comments, comments', codes, codes', h', rfl, rfl,
      filterText_inj.trans (conditionText_eq_iff hnew hnew')⟩
  · intro w _ hw
    have hfree : s.scope.contains (String.ofList w) = false := by rwa [← Bool.not_eq_true, Scope.contains_iff]
    by_cases he : String.ofList w = output
    · simp [Expression.Fragment.text, boundWith, he]
    · simp [Expression.Fragment.text, boundWith, he, hfree]

/-- A filter of products by their prices. -/
def priceFields (output : String) : Fields :=
  [(.text "input", .text "$\x7bproducts\x7d"),
    (.text "operations", .list [.map [(.text "filter", .text "price > 9")]]), (.text "output", .text output)]

theorem priceFields_stores {output : String} (h : isIdentifier output = true) :
    Stores (Transform.toStep (priceFields output)) (priceFields output) output := ⟨rfl, rfl, h⟩

theorem priceFields_same (output output' key : String) (h : key ∉ Transform.outputKeys) :
    (priceFields output).get? key = (priceFields output').get? key := by
  have hkey : ¬ "output" = key := fun he => h (he ▸ by decide)
  simp only [priceFields, Fields.get?_text_cons, if_neg hkey]

theorem filter_cheap_eq_dear :
    ∃ (b' : Block) (t' : State) (data : String) (comments codes : List String),
      (transformBlock {} (Transform.toStep (priceFields "dear"))).Runs {} b' t' ∧
      b' = comments.map .comment ++ .line (.assign "dear"
        (filterText data (conditionText {} {} "cheap" "price > 9"))) ::
          codes.map (fun code => .line (.assign "dear" code)) := by
  obtain ⟨b, s', hrun⟩ : ∃ b s', (transformBlock {} (Transform.toStep (priceFields "cheap"))).Runs {} b s' :=
    exists_runs_of_isSome (by decide +kernel)
  have hnames : Expression.bareNames "price > 9" = ["price"] := by decide +kernel
  obtain ⟨⟨b', t', data, -, comments, -, codes, hrun', -, hshape, hiff⟩, -⟩ :=
    filter_of_outputs (priceFields_stores (by decide +kernel)) (priceFields_stores (by decide +kernel))
      (priceFields_same "cheap" "dear") rfl rfl (fun _ => .rfl) (by decide) (by decide) hrun
  have hsame := hiff.mpr (.inr (by rw [hnames]; decide))
  exact ⟨b', t', data, comments, codes, hrun', hsame ▸ hshape⟩

/-- A result that is stored under the name of a field is compared in place of the field. -/
theorem output_captures_field :
    ((stepLines {} (fun _ => pure []) 1 (Transform.toStep (priceFields "price"))).run {}).toOption.map (·.1) =
      some ["    price = [item for item in products if price > 9]"] ∧
    ((stepLines {} (fun _ => pure []) 1 (Transform.toStep (priceFields "cheap"))).run {}).toOption.map (·.1) =
      some ["    cheap = [item for item in products if item['price'] > 9]"] := by
  constructor
  · decide +kernel
  · decide +kernel

end FlowScript.Program
