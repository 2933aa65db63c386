import FlowScript.Proofs.Blame
import FlowScript.Proofs.Reading

/-!
# Parts that are written verbatim

The text of a value resolves its markers down to a limit, and what lies below the limit is written as it stands. How
deep a value is nested is measured from its leaves up; where the limit cuts it is counted from its root down. The
main statement is that both agree as far as it matters. In a value that is not nested deeper than the limit nothing is
cut off, so a larger limit gives the same text, and a request of which the limit cuts something off is compiled with a
warning about it.

Some values are written as they stand at any depth: scalars that are no texts, but also tuples and sets, whose
markers are not resolved. They are not counted as nested, so nothing announces them.
-/
namespace FlowScript

namespace Value

variable {v w : Value} {depth : Nat}

/-! ## Depth from both ends -/

theorem eq_list_of_items? {vs : List Value} (hitems : v.items? = some vs) (h : v.nestingDepth ≤ maxNesting) :
    v = .list vs := by
  unfold items? at hitems
  split at hitems
  · rw [Option.some.inj hitems]
  · rw [nestingDepth] at h
    omega
  · cases hitems

theorem eq_map_of_fields? {es : Fields} (hfields : v.fields? = some es) (h : v.nestingDepth ≤ maxNesting) :
    v = .map es := by
  unfold fields? at hfields
  split at hfields
  · rw [Option.some.inj hfields]
  · rw [nestingDepth] at h
    omega
  · cases hfields

/-- A part lies no deeper in a value than the value is nested, less what the part itself is nested. -/
theorem Inside.depth_add_le (hw : v.Inside depth w) (h : v.nestingDepth ≤ maxNesting) :
    depth + w.nestingDepth ≤ v.nestingDepth := by
  induction hw with
  | self => omega
  | item hitems hmem _ ih =>
    obtain rfl := eq_list_of_items? hitems h
    have hle := nestingDepthItems_le hmem
    rw [nestingDepth] at h ⊢
    have hchild := ih (by omega)
    omega
  | entry hfields hmem _ ih =>
    obtain rfl := eq_map_of_fields? hfields h
    have hle : _ ≤ _ := nestingDepthEntries_le hmem
    rw [nestingDepth] at h ⊢
    dsimp only at hle
    have hchild := ih (by omega)
    omega

theorem measuredDepth_eq_ok (h : v.measuredDepth = .ok depth) :
    v.nestingDepth = depth ∧ v.nestingDepth ≤ maxNesting := by
  unfold measuredDepth at h
  split_ifs at h with hle
  exact ⟨Except.ok.inj h, hle⟩

/-- A part that lies just below the last level that is resolved. -/
def CutOff (levels : Int) (v w : Value) : Prop := v.Inside (levels + 1).toNat w

theorem CutOff.lt_nestingDepth {levels : Int} (hw : v.CutOff levels w) (h : v.nestingDepth ≤ maxNesting) :
    levels < v.nestingDepth := by
  have hle := Inside.depth_add_le hw h
  omega

/-- A value that is written as it stands at any depth, although a tuple or a set may hold markers. -/
def isUnresolved : Value → Bool
  | .null | .bool _ | .int _ | .date _ | .timestamp _ | .bytes _ | .tuple _ | .set _ | .again _ => true
  | .endless _ (.list _) => false
  | .endless _ (.map _) => false
  | .endless .. => true
  | _ => false

/-- A part that is written as it stands: the limit cuts it off, or it is of a kind that nothing resolves. -/
def Verbatim (levels : Int) (v w : Value) : Prop :=
  v.CutOff levels w ∨ w.isUnresolved = true ∧ ∃ depth : Nat, (depth : Int) ≤ levels ∧ v.Inside depth w

theorem inside_zero_iff : v.Inside 0 w ↔ w = v := by
  constructor
  · rintro ⟨⟩
    rfl
  · rintro rfl
    exact .self _

theorem inside_succ_of_items? {vs : List Value} (hitems : v.items? = some vs) :
    v.Inside (depth + 1) w ↔ ∃ child ∈ vs, child.Inside depth w := by
  constructor
  · rintro (_ | ⟨hown, hmem, hchild⟩ | ⟨hfields, -, -⟩)
    · obtain rfl := Option.some.inj (hitems.symm.trans hown)
      exact ⟨_, hmem, hchild⟩
    · cases (Program.items?_of_fields? hfields).symm.trans hitems
  · rintro ⟨child, hmem, hchild⟩
    exact .item hitems hmem hchild

theorem inside_succ_of_fields? {es : Fields} (hfields : v.fields? = some es) :
    v.Inside (depth + 1) w ↔ ∃ e ∈ es, e.2.Inside depth w := by
  constructor
  · rintro (_ | ⟨hitems, -, -⟩ | ⟨hown, hmem, hchild⟩)
    · cases (Program.items?_of_fields? hfields).symm.trans hitems
    · obtain rfl := Option.some.inj (hfields.symm.trans hown)
      exact ⟨_, hmem, hchild⟩
  · rintro ⟨e, hmem, hchild⟩
    exact .entry hfields hmem hchild

theorem not_inside_succ (hitems : v.items? = none) (hfields : v.fields? = none) : ¬ v.Inside (depth + 1) w := by
  rintro (_ | ⟨hown, -, -⟩ | ⟨hown, -, -⟩)
  · cases hitems.symm.trans hown
  · cases hfields.symm.trans hown

/-- A list or mapping is resolved. -/
theorem items?_fields?_of_isUnresolved (h : v.isUnresolved = true) : v.items? = none ∧ v.fields? = none := by
  cases v with
  | list => cases h
  | map => cases h
  | endless outline content =>
    cases content with
    | list => cases h
    | map => cases h
    | _ => exact ⟨rfl, rfl⟩
  | _ => exact ⟨rfl, rfl⟩

/-- A part lies at the given depth, or less deep and nothing resolves it. -/
def VerbatimAt (depth : Nat) (v w : Value) : Prop :=
  v.Inside depth w ∨ w.isUnresolved = true ∧ ∃ d < depth, v.Inside d w

theorem verbatim_iff {levels : Int} : v.Verbatim levels w ↔ v.VerbatimAt (levels + 1).toNat w := by
  refine or_congr_right (and_congr_right fun _ => exists_congr fun depth => and_congr_left fun _ => ?_)
  omega

/-- What is written as it stands in a value that is itself resolved lies in its children. -/
theorem verbatimAt_succ_iff {α : Type} {children : List α} (value : α → Value)
    (hbelow : ∀ {d}, v.Inside (d + 1) w ↔ ∃ child ∈ children, (value child).Inside d w)
    (hself : v.isUnresolved = false) :
    v.VerbatimAt (depth + 1) w ↔ ∃ child ∈ children, (value child).VerbatimAt depth w := by
  constructor
  · rintro (hcut | ⟨hkind, d, hd, hinside⟩)
    · obtain ⟨child, hchild, hcut⟩ := hbelow.mp hcut
      exact ⟨child, hchild, .inl hcut⟩
    · cases d with
      | zero =>
        obtain rfl := inside_zero_iff.mp hinside
        cases hself.symm.trans hkind
      | succ d =>
        obtain ⟨child, hchild, hinside⟩ := hbelow.mp hinside
        exact ⟨child, hchild, .inr ⟨hkind, d, Nat.lt_of_succ_lt_succ hd, hinside⟩⟩
  · rintro ⟨child, hchild, hcut | ⟨hkind, d, hd, hinside⟩⟩
    · exact .inl (hbelow.mpr ⟨child, hchild, hcut⟩)
    · exact .inr ⟨hkind, d + 1, Nat.succ_lt_succ hd, hbelow.mpr ⟨child, hchild, hinside⟩⟩

theorem verbatimAt_scalar_iff (hitems : v.items? = none) (hfields : v.fields? = none) :
    v.VerbatimAt (depth + 1) w ↔ w = v ∧ v.isUnresolved = true := by
  constructor
  · rintro (hcut | ⟨hkind, d, -, hinside⟩)
    · exact absurd hcut (not_inside_succ hitems hfields)
    · cases d with
      | zero =>
        obtain rfl := inside_zero_iff.mp hinside
        exact ⟨rfl, hkind⟩
      | succ d => exact absurd hinside (not_inside_succ hitems hfields)
  · rintro ⟨rfl, hkind⟩
    exact .inr ⟨hkind, 0, Nat.succ_pos depth, .self _⟩

end Value

/-! ## Texts -/

namespace Literal

variable {v w : Value} {levels : Int} (lookup : List Char → List Char)

theorem code_of_neg (hlevels : levels < 0) : code levels v lookup = v.literal := by
  cases v with
  | list | map | text | float => rw [code, if_pos hlevels]
  | endless outline content =>
    cases content with
    | list | map => rw [code, if_pos hlevels, Value.literal]
    | _ => rw [code] <;> simp
  | _ => rw [code] <;> simp

theorem code_of_items? {vs : List Value} (hitems : v.items? = some vs) (hlevels : 0 ≤ levels) :
    code levels v lookup = "[" ++ Value.commaSeparated (codeItems (levels - 1) vs lookup) ++ "]" := by
  unfold Value.items? at hitems
  split at hitems
  · obtain rfl := Option.some.inj hitems
    rw [code, if_neg (by omega)]
  · obtain rfl := Option.some.inj hitems
    rw [code, if_neg (by omega)]
  · cases hitems

theorem code_of_fields? {es : Fields} (hfields : v.fields? = some es) (hlevels : 0 ≤ levels) :
    code levels v lookup =
      "\x7b" ++ Value.commaSeparated (codeEntries (levels - 1) es lookup) ++ "\x7d" := by
  unfold Value.fields? at hfields
  split at hfields
  · obtain rfl := Option.some.inj hfields
    rw [code, if_neg (by omega)]
  · obtain rfl := Option.some.inj hfields
    rw [code, if_neg (by omega)]
  · cases hfields

/-! ### Pieces -/

/-- A piece of the text of a value. -/
inductive Piece where
  /-- A part of the value, written as it stands. -/
  | raw (part : Value)
  /-- A resolved text or number, a key, or what separates and encloses the pieces. -/
  | made (text : String)

def Piece.text : Piece → String
  | .raw part => part.literal
  | .made text => text

/-- The text of pieces in a row. -/
def textOf : List Piece → String
  | [] => ""
  | piece :: pieces => piece.text ++ textOf pieces

/-- The pieces of a collection, from those of what is in it. -/
def enclosed (front : String) (parts : List (List Piece)) (back : String) : List Piece :=
  .made front :: (List.intercalate [.made ", "] parts ++ [.made back])

/-- The piece of a value that is neither a list nor a mapping. -/
def scalarPiece (lookup : List Char → List Char) : Value → Piece
  | .text s => .made (resolve s lookup).code
  | .float x _ => .made (floatCode x)
  | v => .raw v

/-- The pieces of a value of which a number of levels is resolved. -/
def piecesWithin (lookup : List Char → List Char) : Nat → Value → List Piece
  | 0, v => [.raw v]
  | levels + 1, v =>
    match v.items?, v.fields? with
    | some vs, _ => enclosed "[" (vs.map (piecesWithin lookup levels)) "]"
    | none, some es =>
      enclosed "\x7b"
        (es.map fun e => .made (Text.quote e.1.display ++ ": ") :: piecesWithin lookup levels e.2) "\x7d"
    | none, none => [scalarPiece lookup v]

/-- The pieces of the text of a value. -/
def pieces (levels : Int) (v : Value) (lookup : List Char → List Char) : List Piece :=
  piecesWithin lookup (levels + 1).toNat v

theorem textOf_append (front back : List Piece) : textOf (front ++ back) = textOf front ++ textOf back := by
  induction front with
  | nil => exact (String.empty_append).symm
  | cons piece front ih => rw [List.cons_append, textOf, textOf, ih, String.append_assoc]

theorem textOf_singleton (piece : Piece) : textOf [piece] = piece.text := String.append_empty

theorem textOf_intercalate (parts : List (List Piece)) :
    textOf (List.intercalate [.made ", "] parts) = Value.commaSeparated (parts.map textOf) := by
  unfold Value.commaSeparated
  induction parts with
  | nil => rfl
  | cons first parts ih =>
    cases parts with
    | nil => rw [List.intercalate_singleton, List.map_singleton, String.intercalate_singleton]
    | cons next parts =>
      rw [List.intercalate_cons_cons, textOf_append, textOf_append, ih, textOf_singleton]
      exact String.intercalate_cons_cons.symm

theorem textOf_enclosed (front back : String) (parts : List (List Piece)) :
    textOf (enclosed front parts back) = front ++ Value.commaSeparated (parts.map textOf) ++ back := by
  rw [enclosed, textOf, textOf_append, textOf_intercalate, textOf_singleton, String.append_assoc]
  rfl

theorem mem_intercalate_of_ne {sep piece : Piece} (h : piece ≠ sep) {parts : List (List Piece)} :
    piece ∈ List.intercalate [sep] parts ↔ ∃ part ∈ parts, piece ∈ part := by
  induction parts with
  | nil => simp [List.intercalate]
  | cons first parts ih =>
    cases parts with
    | nil => simp
    | cons next parts =>
      rw [List.intercalate_cons_cons, List.mem_append, List.mem_append, ih, List.mem_singleton]
      simp [h]

theorem raw_mem_enclosed {front back : String} {parts : List (List Piece)} :
    .raw w ∈ enclosed front parts back ↔ ∃ part ∈ parts, .raw w ∈ part := by
  have hmade : (.raw w : Piece) ≠ .made ", " := Piece.noConfusion
  simp [enclosed, mem_intercalate_of_ne hmade]

theorem code_of_scalar (hitems : v.items? = none) (hfields : v.fields? = none) (hlevels : 0 ≤ levels) :
    code levels v lookup = (scalarPiece lookup v).text := by
  cases v with
  | text => rw [code, if_neg (by omega), scalarPiece, Piece.text]
  | float => rw [code, if_neg (by omega), scalarPiece, Piece.text]
  | list => cases hitems
  | map => cases hfields
  | endless outline content =>
    cases content with
    | list => cases hitems
    | map => cases hfields
    | _ => rw [code, scalarPiece, Piece.text] <;> simp
  | _ => rw [code, scalarPiece, Piece.text] <;> simp

theorem raw_eq_scalarPiece_iff (hitems : v.items? = none) (hfields : v.fields? = none) :
    .raw w = scalarPiece lookup v ↔ w = v ∧ v.isUnresolved = true := by
  cases v with
  | list => cases hitems
  | map => cases hfields
  | endless outline content =>
    cases content with
    | list => cases hitems
    | map => cases hfields
    | _ => simp [scalarPiece, Value.isUnresolved]
  | _ => simp [scalarPiece, Value.isUnresolved]

/-- The text of a value is that of its pieces. -/
theorem code_eq_textOf (n : Nat) (v : Value) {levels : Int} (hn : (levels + 1).toNat = n) :
    code levels v lookup = textOf (piecesWithin lookup n v) := by
  induction n generalizing v levels with
  | zero => rw [code_of_neg lookup (by omega), piecesWithin, textOf_singleton, Piece.text]
  | succ n ih =>
    have hlevels : 0 ≤ levels := by omega
    have hbelow : (levels - 1 + 1).toNat = n := by omega
    unfold piecesWithin
    cases hitems : v.items? with
    | some vs =>
      have hparts : codeItems (levels - 1) vs lookup = vs.map (textOf ∘ piecesWithin lookup n) := by
        rw [codeItems_eq_map]
        exact List.map_congr_left fun child _ => ih child hbelow
      simp only [code_of_items? lookup hitems hlevels, hparts, textOf_enclosed, List.map_map]
    | none =>
      cases hfields : v.fields? with
      | some es =>
        have hparts : codeEntries (levels - 1) es lookup =
            es.map (textOf ∘ fun e => .made (Text.quote e.1.display ++ ": ") :: piecesWithin lookup n e.2) := by
          rw [codeEntries_eq_map]
          exact List.map_congr_left fun e _ => congrArg _ (ih e.2 hbelow)
        simp only [code_of_fields? lookup hfields hlevels, hparts, textOf_enclosed, List.map_map]
      | none => simp only [code_of_scalar lookup hitems hfields hlevels, textOf_singleton]

/-- The parts that are written as they stand are those that the limit cuts off, and those that nothing resolves. -/
theorem raw_mem_piecesWithin (n : Nat) (v : Value) : .raw w ∈ piecesWithin lookup n v ↔ v.VerbatimAt n w := by
  have hresolved {v : Value} (h : v.items? ≠ none ∨ v.fields? ≠ none) : v.isUnresolved = false := by
    rw [← Bool.not_eq_true]
    intro hkind
    obtain ⟨hitems, hfields⟩ := Value.items?_fields?_of_isUnresolved hkind
    exact h.elim (· hitems) (· hfields)
  induction n generalizing v with
  | zero => simp [piecesWithin, Value.VerbatimAt, Value.inside_zero_iff]
  | succ n ih =>
    unfold piecesWithin
    cases hitems : v.items? with
    | some vs =>
      rw [Value.verbatimAt_succ_iff id (Value.inside_succ_of_items? hitems) (hresolved (.inl (by simp [hitems])))]
      simp [raw_mem_enclosed, ih]
    | none =>
      cases hfields : v.fields? with
      | some es =>
        rw [Value.verbatimAt_succ_iff Prod.snd (Value.inside_succ_of_fields? hfields)
          (hresolved (.inr (by simp [hfields])))]
        simp [raw_mem_enclosed, ih]
      | none =>
        rw [Value.verbatimAt_scalar_iff hitems hfields, List.mem_singleton]
        exact raw_eq_scalarPiece_iff lookup hitems hfields

/-- If nothing is cut off, a larger limit changes none of the pieces. -/
theorem piecesWithin_eq_of_not_inside {n m : Nat} (hle : n ≤ m) (v : Value) (h : ∀ w, ¬ v.Inside n w) :
    piecesWithin lookup n v = piecesWithin lookup m v := by
  induction n generalizing v m with
  | zero => exact absurd (.self v) (h v)
  | succ n ih =>
    obtain ⟨m, rfl⟩ : ∃ k, m = k + 1 := ⟨m - 1, by omega⟩
    have hbelow : n ≤ m := Nat.le_of_succ_le_succ hle
    unfold piecesWithin
    cases hitems : v.items? with
    | some vs =>
      have hparts : vs.map (piecesWithin lookup n) = vs.map (piecesWithin lookup m) :=
        List.map_congr_left fun child hmem => ih hbelow child fun w hw => h w (.item hitems hmem hw)
      simp only [hparts]
    | none =>
      cases hfields : v.fields? with
      | some es =>
        have hparts : (es.map fun e => .made (Text.quote e.1.display ++ ": ") :: piecesWithin lookup n e.2) =
            es.map fun e => .made (Text.quote e.1.display ++ ": ") :: piecesWithin lookup m e.2 :=
          List.map_congr_left fun e hmem => congrArg _ (ih hbelow e.2 fun w hw => h w (.entry hfields hmem hw))
        simp only [hparts]
      | none => rfl

theorem code_eq_of_not_cutOff {levels' : Int} (hle : levels ≤ levels') (h : ∀ w, ¬ v.CutOff levels w) :
    code levels v lookup = code levels' v lookup := by
  have hlimits : (levels + 1).toNat ≤ (levels' + 1).toNat := by omega
  rw [code_eq_textOf lookup _ v rfl, code_eq_textOf lookup _ v rfl, piecesWithin_eq_of_not_inside lookup hlimits v h]

end Literal

/-! ## Limits -/

theorem Number.Exact.signed_lt_iff (x : Number.Exact) (n : Int) : x.signed < n * x.denominator ↔ x.floor < n := by
  have hpos : (0 : Int) < x.denominator := by
    unfold denominator
    exact_mod_cast Nat.pow_pos (by decide)
  rw [floor, Int.fdiv_eq_ediv_of_nonneg _ (Int.le_of_lt hpos), Int.ediv_lt_iff_lt_mul hpos]

/-- A count is beyond a limit exactly if it is larger than the largest whole number that is not. -/
theorem Limit.isPassedBy_eq_ok {limit : Limit} {levels : Int} (hmost : limit.most = .ok levels) {count : Nat}
    (hcount : (count : Int) < boundless) {passed : Bool} (h : limit.isPassedBy (.int count) = .ok passed) :
    passed = true ↔ levels < count := by
  obtain ⟨given⟩ := limit
  cases given with
  | int n =>
    obtain rfl := Except.ok.inj hmost
    obtain rfl := Except.ok.inj h
    simp [Value.compare?, Value.whole?, compare_gt_iff_gt]
  | bool b =>
    obtain rfl := Except.ok.inj hmost
    obtain rfl := Except.ok.inj h
    simp [Value.compare?, Value.whole?, compare_gt_iff_gt]
  | float x origin =>
    obtain rfl := Except.ok.inj h
    have hbelow : (((Value.int count).compare? (.float x origin) == some .gt) = true) ↔
        Number.compareInt? x count = some .lt := by
      change ((Number.compareInt? x count).map Ordering.swap == some .gt) = true ↔ _
      rcases Number.compareInt? x count with _ | order
      · decide
      · cases order <;> decide
    -- A double is compared by its exact value, and that is what the limit rounds down.
    rw [hbelow, Number.compareInt?]
    simp only [most, rounded] at hmost
    cases hdecode : Number.decode x with
    | notANumber =>
      rw [hdecode] at hmost
      obtain rfl := Except.ok.inj hmost
      simp only [reduceCtorEq, false_iff]
      omega
    | infinite negative =>
      rw [hdecode] at hmost
      obtain rfl := Except.ok.inj hmost
      cases negative
      · simp only [Bool.false_eq_true, if_false, Option.some.injEq, reduceCtorEq, false_iff]
        omega
      · simp only [if_true, true_iff]
        unfold boundless
        omega
    | finite exact =>
      rw [hdecode] at hmost
      obtain rfl := Except.ok.inj hmost
      rw [← exact.signed_lt_iff, Option.some.injEq, Number.Exact.compareInt, compare_lt_iff_lt]
  | _ => cases hmost

namespace Construct

/-! ## Requests -/

/-- The parts of a request that may be nested, each with the name of its argument. -/
def Call.payloads (call : Call) : List (String × Value) :=
  [("headers", call.headers), ("body", call.body)].filter fun payload => !payload.2.isNull

end Construct

namespace Program

open Construct Pass

/-- The warning that the given part of a request is not resolved as a whole. -/
def depthWarning (settings : Settings) (what : String) : String :=
  "HTTP " ++ what ++ " nests deeper than " ++ settings.maxResolveDepth.text ++
    " levels; markers past that depth are emitted verbatim"

/-- The warnings about the depth of the parts of a request. -/
def depthWarnings (settings : Settings) (levels : Int) (payloads : List (String × Value)) : List String :=
  (payloads.filter fun payload => levels < payload.2.nestingDepth).map fun payload => depthWarning settings payload.1

/-- An argument of a request as it is written. -/
def payloadText (ctx : Context) (levels : Int) (payload : String × Value) : String :=
  payload.1 ++ "=" ++ Literal.code levels payload.2 ctx.agent.lookup

variable {ctx : Context} {s s' : State} {b : Block}

theorem warnings_of_valueCode {v : Value} {code : String} (h : (valueCode ctx v).Runs s code s') :
    s'.warnings = s.warnings := by
  simp only [valueCode, runs_bind, runs_lift] at h
  obtain ⟨_, _, ⟨-, rfl⟩, h⟩ := h
  split_ifs at h
  · simp only [requireImport, runs_bind, runs_modify, runs_lift, runs_pure] at h
    obtain ⟨_, _, rfl, _, _, ⟨-, rfl⟩, -, rfl⟩ := h
    rfl
  · simp only [runs_bind, runs_lift, runs_pure] at h
    obtain ⟨_, _, ⟨-, rfl⟩, -, rfl⟩ := h
    rfl

theorem payloadCode_spec {levels : Int} (hmost : ctx.settings.maxResolveDepth.most = .ok levels) {v : Value}
    {what code : String} (h : (payloadCode ctx v what).Runs s code s') :
    v.nestingDepth ≤ Value.maxNesting ∧ code = Literal.code levels v ctx.agent.lookup ∧
      s'.warnings = s.warnings ++ depthWarnings ctx.settings levels [(what, v)] := by
  simp only [payloadCode, runs_bind, runs_lift] at h
  obtain ⟨depth, _, ⟨hdepth, rfl⟩, passed, _, ⟨hpassed, rfl⟩, h⟩ := h
  obtain ⟨rfl, hmeasured⟩ := Value.measuredDepth_eq_ok hdepth
  have hsmall : (v.nestingDepth : Int) < Limit.boundless := by
    unfold Limit.boundless
    unfold Value.maxNesting at hmeasured
    omega
  have hdeep := Limit.isPassedBy_eq_ok hmost hsmall hpassed
  have hcode {t : State} (hv : (valueCode ctx v).Runs t code s') : code = Literal.code levels v ctx.agent.lookup := by
    obtain ⟨n, hn, hcode⟩ := valueCode_eq hv
    obtain rfl := Except.ok.inj (hmost.symm.trans hn)
    exact hcode
  refine ⟨hmeasured, ?_⟩
  cases passed with
  | true =>
    have hlt := hdeep.mp rfl
    simp only [if_true, runs_bind, runs_lift, warn, runs_modify] at h
    obtain ⟨_, _, ⟨hshown, rfl⟩, _, t, rfl, hv⟩ := h
    obtain ⟨-, rfl⟩ := Value.shown_eq_ok_iff.mp hshown
    refine ⟨hcode hv, ?_⟩
    rw [warnings_of_valueCode hv]
    simp [depthWarnings, hlt, depthWarning, Limit.text]
  | false =>
    have hle : ¬ levels < v.nestingDepth := fun hlt => by cases hdeep.mpr hlt
    refine ⟨hcode h, ?_⟩
    rw [warnings_of_valueCode h]
    simp [depthWarnings, hle]

theorem payloadArgument_spec {levels : Int} (hmost : ctx.settings.maxResolveDepth.most = .ok levels) {v : Value}
    {what : String} {texts : List String} (h : (payloadArgument ctx v what).Runs s texts s') :
    let payloads := [(what, v)].filter fun payload => !payload.2.isNull
    (∀ payload ∈ payloads, payload.2.nestingDepth ≤ Value.maxNesting) ∧ texts = payloads.map (payloadText ctx levels) ∧
      s'.warnings = s.warnings ++ depthWarnings ctx.settings levels payloads := by
  unfold payloadArgument at h
  by_cases hnull : v.isNull = true
  · rw [if_pos hnull] at h
    obtain ⟨rfl, rfl⟩ := runs_pure.mp h
    simp [hnull, depthWarnings]
  · rw [if_neg hnull] at h
    simp only [runs_bind, runs_pure] at h
    obtain ⟨code, _, hcode, rfl, rfl⟩ := h
    obtain ⟨hdepth, rfl, hwarnings⟩ := payloadCode_spec hmost hcode
    simp [hnull, hdepth, hwarnings, payloadText]

/-- A request is written with its headers and body down to the limit, and its warnings say which of them go deeper. -/
theorem requestCode_spec {call : Call} {code : String} (h : (requestCode ctx call).Runs s code s') :
    ∃ levels url, ctx.settings.maxResolveDepth.most = .ok levels ∧
      (∀ payload ∈ call.payloads, payload.2.nestingDepth ≤ Value.maxNesting) ∧
      code = "await _http_request(" ++
        separated (Text.quote call.method :: url :: call.payloads.map (payloadText ctx levels)) ++ ")" ∧
      s'.warnings = s.warnings ++ depthWarnings ctx.settings levels call.payloads := by
  simp only [requestCode, requireHelper, runs_bind, runs_modify, runs_pure] at h
  obtain ⟨_, _, rfl, url, _, hurl, headers, _, hheaders, body, _, hbody, rfl, rfl⟩ := h
  obtain ⟨levels, hmost, -⟩ := valueCode_eq hurl
  obtain ⟨hdepths, rfl, hwarnings⟩ := payloadArgument_spec hmost hheaders
  obtain ⟨hdepths', rfl, hwarnings'⟩ := payloadArgument_spec hmost hbody
  have hpayloads : call.payloads = ([("headers", call.headers)].filter fun payload => !payload.2.isNull) ++
      [("body", call.body)].filter fun payload => !payload.2.isNull := List.filter_append [_] [_]
  refine ⟨levels, url, hmost, ?_, ?_, ?_⟩
  · rw [hpayloads]
    exact List.forall_mem_append.mpr ⟨hdepths, hdepths'⟩
  · rw [hpayloads, List.map_append]
  · rw [hwarnings', hwarnings, warnings_of_valueCode hurl, hpayloads, depthWarnings, depthWarnings, depthWarnings,
      List.filter_append, List.map_append, List.append_assoc]

/-- The step that sends a request assigns its answer, and warns first of what is nested too deep. -/
theorem callBlock_request_spec {step : Step} {call : Call} {b : Block} (hread : Call.read? step = .ok (some call))
    (hkind : call.kind = some "http") (hurl : call.url.isFilled = true) (h : (callBlock ctx step).Runs s b s') :
    ∃ levels url more, ctx.settings.maxResolveDepth.most = .ok levels ∧
      (∀ payload ∈ call.payloads, payload.2.nestingDepth ≤ Value.maxNesting) ∧
      b = [.line (.assign (nameOr call.resultName "response") ("await _http_request(" ++
        separated (Text.quote call.method :: url :: call.payloads.map (payloadText ctx levels)) ++ ")"))] ∧
      s'.warnings = s.warnings ++ (depthWarnings ctx.settings levels call.payloads ++ more) := by
  simp only [callBlock, hread, runs_bind, runs_lift] at h
  obtain ⟨_, _, ⟨he, rfl⟩, h⟩ := h
  obtain rfl := Except.ok.inj he
  simp only [hkind, hurl, BEq.rfl, Bool.and_self, if_true, bindCall, declare, runs_bind, runs_modify, runs_pure] at h
  obtain ⟨code, t, hcode, name, t', hname, _, _, rfl, rfl, rfl⟩ := h
  obtain ⟨levels, url, hmost, hfinite, rfl, hwarnings⟩ := requestCode_spec hcode
  obtain ⟨more, hmore, -⟩ := (targetName_noting _ _ _ hname).warnings
  obtain ⟨rfl, -⟩ := targetName_spec hname
  refine ⟨levels, url, more, hmost, hfinite, rfl, ?_⟩
  rw [← List.append_assoc, ← hwarnings, ← hmore]

/-- The text of a value consists of pieces. Those that are parts of the value, written as they stand, are the ones
that the limit cuts off and the ones that nothing resolves. In a value that is not nested deeper than a limit nothing
is cut off, so that every larger limit gives the same text. A request is written with the texts of its headers and of
its body, and where something is cut off in one of them there is the warning that it is nested deeper; what else
stands there as it is, nothing resolves. -/
theorem verbatim_announced (ctx : Context) :
    (∀ (v : Value) (levels : Int) (lookup : List Char → List Char),
      Literal.code levels v lookup = Literal.textOf (Literal.pieces levels v lookup) ∧
      ∀ w, .raw w ∈ Literal.pieces levels v lookup ↔ v.Verbatim levels w) ∧
    (∀ (v : Value) (depth : Nat) (limit limit' : Int) (lookup : List Char → List Char),
      v.measuredDepth = .ok depth → depth ≤ limit → limit ≤ limit' →
        Literal.code limit v lookup = Literal.code limit' v lookup ∧
        ∀ w, .raw w ∈ Literal.pieces limit v lookup → w.isUnresolved = true) ∧
    ∀ (step : Step) (call : Call) (s s' : State) (b : Block),
      Call.read? step = .ok (some call) → call.kind = some "http" → call.url.isFilled = true →
      (callBlock ctx step).Runs s b s' →
        ∃ levels url more, ctx.settings.maxResolveDepth.most = .ok levels ∧
          b = [.line (.assign (nameOr call.resultName "response") ("await _http_request(" ++
            separated (Text.quote call.method :: url :: call.payloads.map (payloadText ctx levels)) ++ ")"))] ∧
          s'.warnings = s.warnings ++ (depthWarnings ctx.settings levels call.payloads ++ more) ∧
          ∀ payload ∈ call.payloads, ∀ w, .raw w ∈ Literal.pieces levels payload.2 ctx.agent.lookup →
            depthWarning ctx.settings payload.1 ∈ depthWarnings ctx.settings levels call.payloads ∨
            w.isUnresolved = true ∧ ¬ payload.2.CutOff levels w := by
  have hraw (v : Value) (levels : Int) (lookup : List Char → List Char) (w : Value) :
      .raw w ∈ Literal.pieces levels v lookup ↔ v.Verbatim levels w :=
    (Literal.raw_mem_piecesWithin lookup _ v).trans Value.verbatim_iff.symm
  refine ⟨fun v levels lookup => ⟨Literal.code_eq_textOf lookup _ v rfl, hraw v levels lookup⟩,
    fun v depth limit limit' lookup hmeasured hdepth hle => ?_, fun step call s s' b hread hkind hurl h => ?_⟩
  · obtain ⟨rfl, hfinite⟩ := Value.measuredDepth_eq_ok hmeasured
    have hnone : ∀ w, ¬ v.CutOff limit w := fun w hw => by
      have hlt := hw.lt_nestingDepth hfinite
      omega
    refine ⟨Literal.code_eq_of_not_cutOff lookup hle hnone, fun w hw => ?_⟩
    obtain hcut | ⟨hkind, -⟩ := (hraw v limit lookup w).mp hw
    · exact absurd hcut (hnone w)
    · exact hkind
  · obtain ⟨levels, url, more, hmost, hfinite, hb, hwarnings⟩ := callBlock_request_spec hread hkind hurl h
    refine ⟨levels, url, more, hmost, hb, hwarnings, fun payload hpayload w hw => ?_⟩
    by_cases hcut : payload.2.CutOff levels w
    · have hlt := hcut.lt_nestingDepth (hfinite payload hpayload)
      exact .inl (List.mem_map.mpr ⟨payload, List.mem_filter.mpr ⟨hpayload, by simpa using hlt⟩, rfl⟩)
    · exact .inr ⟨(((hraw _ _ _ w).mp hw).resolve_left hcut).1, hcut⟩

/-- A body with a marker that is nested in three lists. -/
def deepBody : Value := .list [.list [.list [.text "$\x7by\x7d"]]]

/-- A request with flat headers and a deep body. -/
def deepRequest : Step := [(.text "external_call", .map [(.text "type", .text "http"), (.text "url", .text "u"),
  (.text "headers", .map [(.text "a", .text "$\x7bx\x7d")]), (.text "body", deepBody)])]

def deepCall : Call where
  kind := some "http"
  resultName := .text "response"
  url := .text "u"
  method := "GET"
  headers := .map [(.text "a", .text "$\x7bx\x7d")]
  body := deepBody
  command := .null

theorem deepRequest_announced :
    deepBody.measuredDepth = .ok 3 ∧ Literal.code 3 deepBody = Literal.code 10 deepBody ∧
    .raw (.list [.text "$\x7by\x7d"]) ∈ Literal.pieces 1 deepBody Marker.lookup ∧
    ∃ b s', (callBlock { settings := { maxResolveDepth := 1 } } deepRequest).Runs {} b s' ∧
      "HTTP body nests deeper than 1 levels; markers past that depth are emitted verbatim" ∈ s'.warnings := by
  have hspec := verbatim_announced { settings := { maxResolveDepth := 1 } }
  have hdepth : deepBody.measuredDepth = .ok 3 := rfl
  have hread : Call.read? deepRequest = .ok (some deepCall) := rfl
  have hcut : deepBody.CutOff 1 (.list [.text "$\x7by\x7d"]) :=
    .item rfl List.mem_cons_self (.item rfl List.mem_cons_self (.self _))
  have hraw : .raw (.list [.text "$\x7by\x7d"]) ∈ Literal.pieces 1 deepBody Marker.lookup :=
    ((hspec.1 _ _ _).2 _).mpr (.inl hcut)
  have hbody : ("body", deepBody) ∈ deepCall.payloads := List.mem_cons_of_mem _ List.mem_cons_self
  obtain ⟨b, s', hrun⟩ :
      ∃ b s', (callBlock { settings := { maxResolveDepth := 1 } } deepRequest).Runs {} b s' :=
    exists_runs_of_isSome (by decide +kernel)
  obtain ⟨levels, _, _, hmost, -, hwarnings, hall⟩ := hspec.2.2 deepRequest deepCall {} _ _ hread rfl rfl hrun
  obtain rfl : 1 = levels := Except.ok.inj hmost
  refine ⟨hdepth, (hspec.2.1 deepBody 3 3 10 _ hdepth (by decide) (by decide)).1, hraw, b, s', hrun, ?_⟩
  rw [hwarnings]
  exact List.mem_append_right _ (List.mem_append_left _ ((hall _ hbody _ hraw).resolve_right fun h => h.2 hcut))

/-- A body that is a list of pairs, one of which holds a marker. -/
def pairsBody : Value := .list [.tuple [.text "k", .text "$\x7bx\x7d"]]

/-- A pair is written with its marker unresolved, though nothing is nested and nothing is announced. -/
theorem pairs_written_unannounced :
    pairsBody.measuredDepth = .ok 1 ∧
    .raw (.tuple [.text "k", .text "$\x7bx\x7d"]) ∈ Literal.pieces 50 pairsBody Marker.lookup ∧
    ((callBlock {} [(.text "external_call", .map [(.text "type", .text "http"), (.text "url", .text "u"),
        (.text "body", pairsBody)])]).run {}).toOption.map
          (fun r => (r.1.lines (Margin.copies "    ") 1, r.2.warnings)) =
      some (["    response = await _http_request('GET', 'u', body=[('k', '$\x7bx\x7d')])"], []) := by
  refine ⟨rfl, (Literal.raw_mem_piecesWithin _ _ _).mpr (.inr ⟨rfl, 1, by decide, ?_⟩), by decide +kernel⟩
  exact .item rfl List.mem_cons_self (.self _)

end Program

end FlowScript
