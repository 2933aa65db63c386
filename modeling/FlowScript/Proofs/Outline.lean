import FlowScript.Proofs.FreshNames
import FlowScript.Proofs.Step

/-!
# Outlines of blocks

A line is a statement if it is neither blank nor a comment. The outline of a block says what its lines
amount to, and whether every header in it owns a statement one level deeper. Headers are statements
themselves, and so are the lines that steps leave, whatever their names and expressions are.
-/
namespace FlowScript.Program

open Construct Pass

/-! ## Statements as text -/

/-- Whether a line is neither blank nor a comment. -/
def isStatement (line : String) : Bool :=
  match Text.trimStart line.toList with
  | [] => false
  | c :: _ => c != '#'

theorem isStatement_of_toList {line : String} {c : Char} {cs : List Char} (h : line.toList = c :: cs)
    (hblank : Text.isBlank c = false) (hmark : c ≠ '#') : isStatement line = true := by
  have htrim : Text.trimStart line.toList = c :: cs := by
    rw [h, Text.trimStart, List.dropWhile_cons_of_neg (by simp [hblank])]
  simp [isStatement, htrim, hmark]

theorem isStatement_append {line : String} (h : isStatement line = true) (rest : String) :
    isStatement (line ++ rest) = true := by
  unfold isStatement Text.trimStart at h ⊢
  rw [String.toList_append, List.dropWhile_append]
  cases hd : line.toList.dropWhile Text.isBlank with
  | nil => simp [hd] at h
  | cons c cs => simpa [hd] using h

theorem isBlank_of_isNameStart {c : Char} (h : Text.isNameStart c = true) : Text.isBlank c = false := by
  have hrange : 0x41 ≤ c.toNat ∧ c.toNat ≤ 0x7A := by
    change (decide (c.val ≥ 'A'.val ∧ c.val ≤ 'Z'.val) ||
      (decide (c.val ≥ 'a'.val) && decide (c.val ≤ 'z'.val)) || c == '_') = true at h
    simp only [Bool.or_eq_true, Bool.and_eq_true, decide_eq_true_eq, beq_iff_eq, ge_iff_le,
      UInt32.le_iff_toNat_le] at h
    rcases h with (⟨hlo, hhi⟩ | ⟨hlo, hhi⟩) | rfl
    · exact ⟨hlo, Nat.le_trans hhi (by decide)⟩
    · exact ⟨Nat.le_trans (by decide) hlo, hhi⟩
    · decide
  have hspace : c ≠ ' ' := by
    rintro rfl
    exact absurd hrange.1 (by decide)
  simp only [Text.isBlank, Bool.or_eq_false_iff, Bool.and_eq_false_iff, beq_eq_false_iff_ne, ne_eq,
    decide_eq_false_iff_not, hspace, not_false_eq_true, true_and]
  omega

theorem isStatement_of_isIdentifier {name : String} (h : isIdentifier name = true) :
    isStatement name = true := by
  have hnamed : isNamed name.toList = true := by
    unfold isIdentifier at h
    exact (Bool.and_eq_true_iff.mp h).1
  cases hcs : name.toList with
  | nil => simp [hcs, isNamed, takeName] at hnamed
  | cons c cs =>
    cases hstart : Text.isNameStart c with
    | false => simp [hcs, isNamed, takeName, hstart] at hnamed
    | true =>
      refine isStatement_of_toList hcs (isBlank_of_isNameStart hstart) ?_
      rintro rfl
      exact absurd hstart (by decide)

theorem isStatement_of_identifier? {v : Value} {name : String} (h : v.identifier? = some name) :
    isStatement name = true :=
  isStatement_of_isIdentifier (identifier?_eq_some h).2

theorem isStatement_nameOr (v : Value) {fallback : String} (h : isStatement fallback = true) :
    isStatement (nameOr v fallback) = true := by
  unfold nameOr
  cases hv : v.identifier? with
  | none => exact h
  | some name => exact isStatement_of_identifier? hv

theorem isStatement_freshName (scope : Scope) {base : String} (h : isStatement base = true) :
    isStatement (scope.freshName base) = true := by
  have hcandidate : ∀ k, isStatement (Scope.candidate base k) = true := by
    intro k
    cases k with
    | zero => exact h
    | succ k => exact isStatement_append (isStatement_append h _) _
  obtain ⟨-, k, hk⟩ := scope.freshName_spec base
  rw [hk]
  exact hcandidate k

theorem isStatement_counterOf (scope : Scope) (loop : Loop) :
    isStatement (counterOf scope loop) = true :=
  isStatement_nameOr _ (isStatement_freshName scope (by decide))

theorem isStatement_separated {part : String} (h : isStatement part = true) (parts : List String) :
    isStatement (separated (part :: parts)) = true := by
  cases parts with
  | nil => rwa [separated, String.intercalate_singleton]
  | cons next rest =>
    rw [separated, String.intercalate_cons_cons]
    exact isStatement_append (isStatement_append h _) _

theorem isStatement_outputs {parallel : Parallel} {output : String} (h : output ∈ parallel.outputs) :
    isStatement output = true := by
  unfold Parallel.outputs at h
  split_ifs at h
  · obtain ⟨⟨branch, i⟩, -, rfl⟩ := List.mem_map.mp h
    have hnumbered : isStatement ("result_" ++ Number.natText i) = true :=
      isStatement_append (by decide) _
    simp only [Parallel.outputName]
    split
    · split_ifs with hname
      · exact isStatement_of_isIdentifier hname
      · exact hnumbered
    · exact hnumbered
  · simp at h

theorem isStatement_join {outputs : List String} (h : ∀ output ∈ outputs, isStatement output = true)
    (functions : List String) : isStatement (Statement.join outputs functions).code = true := by
  match outputs with
  | [] => exact isStatement_append (isStatement_append (by decide) _) _
  | [output] =>
    have hout := h output (by simp)
    exact isStatement_append (isStatement_append (isStatement_append hout _) _) _
  | output :: next :: rest =>
    have hout := isStatement_separated (h output (by simp)) (next :: rest)
    exact isStatement_append (isStatement_append hout _) _

theorem isStatement_assign {target : String} (h : isStatement target = true) (value : String) :
    isStatement (Statement.assign target value).code = true := by
  rw [Statement.code]
  exact isStatement_append (isStatement_append h _) _

theorem isStatement_await (code : String) :
    isStatement (Statement.evaluate ("await " ++ code)).code = true := by
  rw [Statement.code]
  exact isStatement_append (by decide) _

/-- Whatever a header says, it is no comment. -/
theorem isStatement_header (header : Header) : isStatement header.code = true := by
  have starts {word : String} (h : isStatement word = true) (a b : String) :
      isStatement (word ++ a ++ b) = true := isStatement_append (isStatement_append h a) b
  cases header with
  | run agent => exact starts (by decide) _ _
  | whenTrue condition => exact starts (by decide) _ _
  | otherwise => decide
  | forEach index item items =>
    cases index with
    | none => exact isStatement_append (isStatement_append (starts (by decide) _ _) _) _
    | some index =>
      exact starts (starts (starts (by decide) _ _) _ _) _ _
  | counted index count => exact isStatement_append (isStatement_append (starts (by decide) _ _) _) _
  | bounded counter bound condition => exact starts (starts (starts (by decide) _ _) _ _) _ _
  | attempt => decide
  | handle name =>
    cases name with
    | none => decide
    | some name => exact starts (by decide) _ _
  | cleanup => decide
  | branch function => exact starts (by decide) _ _

/-! ## Outlines -/

/-- What lines amount to. -/
inductive Content where
  | nothing
  /-- Comments and blank lines only. -/
  | remarks
  /-- At least one statement. -/
  | code
deriving Repr, DecidableEq

def Content.join : Content → Content → Content
  | .code, _ => .code
  | _, .code => .code
  | .remarks, _ => .remarks
  | .nothing, c => c

@[simp] theorem Content.code_join (c : Content) : Content.code.join c = .code := by rw [join]

@[simp] theorem Content.join_code (c : Content) : c.join .code = .code := by cases c <;> rfl

theorem Content.join_eq_code_iff {c d : Content} : c.join d = .code ↔ c = .code ∨ d = .code := by
  cases c <;> cases d <;> simp [join]

/-- What lines amount to, and whether every header among them owns a statement. -/
structure Outline where
  content : Content
  owning : Bool := true
deriving Repr, DecidableEq

namespace Outline

def join (a b : Outline) : Outline := ⟨a.content.join b.content, a.owning && b.owning⟩

def all (outlines : List Outline) : Outline := outlines.foldr join ⟨.nothing, true⟩

/-- Whether lines with this outline can stand below a header. A header is `closed` if a statement that
is not among these lines always stands with them. -/
def fits (o : Outline) (closed : Bool) : Bool := (closed || o.content != .remarks) && o.owning

@[simp] theorem join_nothing (o : Outline) : o.join ⟨.nothing, true⟩ = o := by
  obtain ⟨content, owning⟩ := o
  cases content <;> simp [join, Content.join]

@[simp] theorem nothing_join (o : Outline) : (⟨.nothing, true⟩ : Outline).join o = o := by
  obtain ⟨content, owning⟩ := o
  cases content <;> simp [join, Content.join]

theorem join_assoc (a b c : Outline) : (a.join b).join c = a.join (b.join c) := by
  obtain ⟨x, _⟩ := a
  obtain ⟨y, _⟩ := b
  obtain ⟨z, _⟩ := c
  cases x <;> cases y <;> cases z <;> simp [join, Content.join, Bool.and_assoc]

end Outline

/-- The first line of an item without its indentation. -/
def Item.head : Item → String
  | .line statement => statement.code
  | .comment text => "# " ++ text
  | .blank => ""
  | .block header _ => header.code

def contentOf (line : String) : Content := if isStatement line then .code else .remarks

mutual

def Item.outline : Item → Outline
  | .line statement => ⟨contentOf (Item.line statement).head, true⟩
  | .comment text => ⟨contentOf (Item.comment text).head, true⟩
  | .blank => ⟨contentOf Item.blank.head, true⟩
  | .block header body =>
    ⟨contentOf header.code, (blockOutline body).content == .code && (blockOutline body).owning⟩

def blockOutline : List Item → Outline
  | [] => ⟨.nothing, true⟩
  | item :: items => item.outline.join (blockOutline items)

end

/-- The block below a header has an item whose line is a statement one level deeper. -/
def OwnsStatement (body : Block) : Prop :=
  ∃ item ∈ body, ∃ text, isStatement text = true ∧
    ∀ margin level, (item.lines margin level).head? = some (margin level ++ text)

/-- A header stands somewhere in a block, with the given body. -/
inductive Occurs (header : Header) (body : Block) : Block → Prop where
  | here {items : Block} (h : .block header body ∈ items) : Occurs header body items
  | inside {outer : Header} {inner items : Block} (h : .block outer inner ∈ items)
      (o : Occurs header body inner) : Occurs header body items

section Outlines

variable {a b : Block}

@[simp] theorem blockOutline_nil : blockOutline [] = ⟨.nothing, true⟩ := rfl

theorem blockOutline_cons (item : Item) (items : Block) :
    blockOutline (item :: items) = item.outline.join (blockOutline items) := rfl

@[simp] theorem blockOutline_singleton (item : Item) : blockOutline [item] = item.outline := by
  rw [blockOutline_cons, blockOutline_nil, Outline.join_nothing]

theorem blockOutline_append : blockOutline (a ++ b) = (blockOutline a).join (blockOutline b) := by
  induction a with
  | nil => simp
  | cons item items ih => rw [List.cons_append, blockOutline_cons, blockOutline_cons, ih, Outline.join_assoc]

@[simp] theorem outline_comment (text : String) : (Item.comment text).outline = ⟨.remarks, true⟩ := by
  have h : isStatement ("# " ++ text) = false := by
    simp [isStatement, String.toList_append, Text.trimStart, Text.isBlank]
  simp [Item.outline, Item.head, contentOf, h]

@[simp] theorem outline_blank : Item.blank.outline = ⟨.remarks, true⟩ := rfl

theorem outline_line {statement : Statement} (h : isStatement statement.code = true) :
    (Item.line statement).outline = ⟨.code, true⟩ := by
  simp [Item.outline, Item.head, contentOf, h]

theorem outline_block (header : Header) (body : Block) : (Item.block header body).outline =
    ⟨.code, (blockOutline body).content == .code && (blockOutline body).owning⟩ := by
  rw [Item.outline, contentOf, if_pos (isStatement_header header)]

theorem content_of_cons (item : Item) (items : Block) :
    (blockOutline (item :: items)).content ≠ .nothing := by
  rw [blockOutline_cons]
  cases item <;> simp only [Item.outline, contentOf] <;> split_ifs <;>
    cases h : (blockOutline items).content <;> simp [Outline.join, Content.join, h]

/-- A header over lines that are filled up owns a statement unless they amount to remarks. -/
theorem outline_filled (header : Header) (body : Block) :
    (Item.block header (filled body)).outline = ⟨.code, (blockOutline body).fits false⟩ := by
  rw [outline_block]
  cases body with
  | nil =>
    rw [filled, if_pos List.isEmpty_nil, blockOutline_singleton, outline_line (by decide), blockOutline_nil]
    rfl
  | cons item items =>
    have hne := content_of_cons item items
    rw [filled, if_neg (by simp), Outline.fits]
    cases h : (blockOutline (item :: items)).content <;> simp_all

/-- A statement that always stands below a header closes it. -/
theorem outline_closed (header : Header) (before body after : Block)
    (h : (blockOutline before).content = .code ∨ (blockOutline after).content = .code)
    (hb : (blockOutline before).owning = true) (ha : (blockOutline after).owning = true) :
    (Item.block header (before ++ body ++ after)).outline = ⟨.code, (blockOutline body).fits true⟩ := by
  have hcode : (blockOutline (before ++ body ++ after)).content = .code := by
    rw [blockOutline_append, blockOutline_append]
    rcases h with h | h <;> simp [Outline.join, h]
  rw [outline_block, hcode, blockOutline_append, blockOutline_append]
  simp [Outline.join, Outline.fits, hb, ha]

theorem Item.content_eq_code_iff (item : Item) : item.outline.content = .code ↔
    ∃ text, isStatement text = true ∧
      ∀ margin level, (item.lines margin level).head? = some (margin level ++ text) := by
  have hcontent : item.outline.content = contentOf item.head := by cases item <;> rfl
  -- Without indentation the line is the text itself.
  have hplain : (item.lines (fun _ => "") 0).head? = some item.head := by
    cases item <;> simp [lines, head]
  rw [hcontent, contentOf]
  constructor
  · intro h
    split_ifs at h with hs
    refine ⟨item.head, hs, fun margin level => ?_⟩
    cases item with
    | blank => exact absurd hs (by decide)
    | _ => simp [lines, head, String.append_assoc]
  · rintro ⟨text, hs, hlines⟩
    have htext : item.head = text := by
      have h := hlines (fun _ => "") 0
      rw [hplain] at h
      simpa using h
    rw [htext, if_pos hs]

theorem ownsStatement_iff (body : Block) : OwnsStatement body ↔ (blockOutline body).content = .code := by
  have hitems : OwnsStatement body ↔ ∃ item ∈ body, item.outline.content = .code := by
    simp only [OwnsStatement, Item.content_eq_code_iff]
  rw [hitems]
  clear hitems
  induction body with
  | nil => simp
  | cons item items ih =>
    simp only [List.mem_cons, exists_eq_or_imp, ih, blockOutline_cons, Outline.join,
      Content.join_eq_code_iff]

theorem occurs_cons_iff {header : Header} {body : Block} (item : Item) (items : Block) :
    Occurs header body (item :: items) ↔ Occurs header body [item] ∨ Occurs header body items := by
  constructor
  · rintro (h | ⟨h, o⟩)
    · rcases List.mem_cons.mp h with h | h
      · exact .inl (.here (List.mem_singleton.mpr h))
      · exact .inr (.here h)
    · rcases List.mem_cons.mp h with h | h
      · exact .inl (.inside (List.mem_singleton.mpr h) o)
      · exact .inr (.inside h o)
  · rintro ((h | ⟨h, o⟩) | (h | ⟨h, o⟩))
    · exact .here (List.mem_cons.mpr (.inl (List.mem_singleton.mp h)))
    · exact .inside (List.mem_cons.mpr (.inl (List.mem_singleton.mp h))) o
    · exact .here (List.mem_cons_of_mem _ h)
    · exact .inside (List.mem_cons_of_mem _ h) o

theorem owning_iff_of_plain {item : Item} (ho : item.outline.owning = true)
    (hp : ∀ header body, item ≠ .block header body) : item.outline.owning = true ↔
      ∀ header body, Occurs header body [item] → OwnsStatement body := by
  refine iff_of_true ho ?_
  rintro header body (h | ⟨h, -⟩) <;> exact absurd (List.mem_singleton.mp h).symm (hp _ _)

mutual

theorem Item.owning_iff : ∀ item : Item, item.outline.owning = true ↔
    ∀ header body, Occurs header body [item] → OwnsStatement body
  | .line statement => owning_iff_of_plain rfl (by simp)
  | .comment text => owning_iff_of_plain rfl (by simp)
  | .blank => owning_iff_of_plain rfl (by simp)
  | .block outer inner => by
    rw [outline_block, Bool.and_eq_true, beq_iff_eq, ← ownsStatement_iff, blockOutline_owning_iff inner]
    constructor
    · rintro ⟨hown, hinner⟩ header body (h | ⟨h, o⟩)
      · obtain ⟨rfl, rfl⟩ := Item.block.inj (List.mem_singleton.mp h)
        exact hown
      · obtain ⟨rfl, rfl⟩ := Item.block.inj (List.mem_singleton.mp h)
        exact hinner header body o
    · intro h
      exact ⟨h outer inner (.here (List.mem_singleton.mpr rfl)),
        fun header body o => h header body (.inside (List.mem_singleton.mpr rfl) o)⟩

theorem blockOutline_owning_iff : ∀ items : Block, (blockOutline items).owning = true ↔
    ∀ header body, Occurs header body items → OwnsStatement body
  | [] => by
    rw [blockOutline_nil]
    refine iff_of_true rfl ?_
    rintro header body (h | ⟨h, -⟩) <;> simp at h
  | item :: items => by
    rw [blockOutline_cons, Outline.join, Bool.and_eq_true, Item.owning_iff item,
      blockOutline_owning_iff items]
    simp only [occurs_cons_iff item items]
    constructor
    · rintro ⟨hitem, hitems⟩ header body (o | o)
      · exact hitem header body o
      · exact hitems header body o
    · intro h
      exact ⟨fun header body o => h header body (.inl o), fun header body o => h header body (.inr o)⟩

end

end Outlines

end FlowScript.Program
