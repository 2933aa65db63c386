import FlowScript.Proofs.Assigned
import FlowScript.Proofs.Detected
import FlowScript.Proofs.Locations
import FlowScript.Proofs.Tokens
import FlowScript.Validation.Reference

/-!
# Undefined references

A name that a marker refers to without a definition is reported once for each text it stands in. Reports
are told apart by the paths of the texts. Where the keys of every mapping are texts without a slash or an
opening bracket, different values of a document have different paths, so no report is lost. A marker that
calls a builtin needs no definition. The call is recognized by a word of any alphabet that starts with the
name of the builtin, not by the name alone.
-/
namespace FlowScript

/-! ## Paths of the nodes -/

/-- The characters that a step of a path starts with. -/
def Value.startsStep (c : Char) : Bool := c == '/' || c == '['

/-- The keys of a mapping are different texts without the characters that a step starts with. -/
def Fields.HasPlainKeys (es : Fields) : Prop :=
  (es.map (·.1)).Nodup ∧
    ∀ e ∈ es, ∃ name : String, e.1 = .text name ∧ ∀ c ∈ name.toList, Value.startsStep c = false

namespace Value

/-- What follows the path of a value in a longer path: nothing, or further steps. -/
def Continues (rest : String) : Prop := ∀ c ∈ rest.toList.head?, startsStep c = true

theorem Continues.append {first : String} (h : Continues first) (hne : first ≠ "") (rest : String) :
    Continues (first ++ rest) := by
  intro c hc
  have hlist : first.toList ≠ [] := fun hnil => hne (String.toList_eq_nil_iff.mp hnil)
  rw [String.toList_append, List.head?_append_of_ne_nil _ hlist] at hc
  exact h c hc

/-- No path leads to both. -/
def Parted (a b : String) : Prop :=
  ∀ rest rest' : String, Continues rest → Continues rest' → a ++ rest ≠ b ++ rest'

theorem parted_keyPath {name name' : String} (hne : name ≠ name')
    (hname : ∀ c ∈ name.toList, startsStep c = false) (hname' : ∀ c ∈ name'.toList, startsStep c = false)
    (path : String) : Parted (keyPath path (.text name)) (keyPath path (.text name')) := by
  intro rest rest' hrest hrest' heq
  have hnames : name ++ rest = name' ++ rest' := by
    simpa only [keyPath, display, String.append_assoc, String.append_right_inj] using heq
  have hlists : name.toList ++ rest.toList = name'.toList ++ rest'.toList := by
    rw [← String.toList_append, ← String.toList_append, hnames]
  exact hne (String.toList_injective (cut_unique startsStep hname hname' hrest hrest' hlists).1)

/-- Every mapping inside a value has plain keys. -/
def HasPlainKeys (v : Value) : Prop :=
  ∀ depth w, v.Inside depth w → ∀ es, w.fields? = some es → es.HasPlainKeys

theorem hasPlainKeys_iff {v : Value} (path : String) : v.HasPlainKeys ↔
    (∀ es, v.fields? = some es → es.HasPlainKeys) ∧ ∀ child ∈ children path v, child.value.HasPlainKeys := by
  constructor
  · intro h
    refine ⟨h 0 v (.self v), fun child hchild depth w hw => ?_⟩
    exact h (depth + 1) w ((inside_succ_iff path).2 ⟨child, hchild, hw⟩)
  · rintro ⟨hself, hbelow⟩ depth w hw
    cases depth with
    | zero =>
      cases hw
      exact hself
    | succ depth =>
      obtain ⟨child, hchild, hinside⟩ := (inside_succ_iff path).1 hw
      exact hbelow child hchild depth w hinside

theorem hasPlainKeys_map {es : Fields} :
    (Value.map es).HasPlainKeys ↔ es.HasPlainKeys ∧ ∀ e ∈ es, e.2.HasPlainKeys := by
  rw [hasPlainKeys_iff ""]
  simp only [fields?, children, Option.some.injEq, forall_eq', List.forall_mem_map]

theorem hasPlainKeys_list {vs : List Value} : (Value.list vs).HasPlainKeys ↔ ∀ v ∈ vs, v.HasPlainKeys := by
  rw [hasPlainKeys_iff ""]
  simp only [fields?, children, items, items?, Option.getD_some, List.forall_mem_map, reduceCtorEq,
    false_implies, implies_true, true_and]
  constructor
  · intro h v hv
    obtain ⟨i, hi, rfl⟩ := List.mem_iff_getElem.mp hv
    exact h (vs[i], i) (List.mem_zipIdx_iff_getElem?.mpr (List.getElem?_eq_getElem hi))
  · intro h n hn
    exact h n.1 (List.fst_mem_of_mem_zipIdx hn)

theorem hasPlainKeys_text (s : String) : (Value.text s).HasPlainKeys := by
  rw [hasPlainKeys_iff ""]
  simp [fields?, children, items, items?]

theorem children_parted {v : Value} (hkeys : v.HasPlainKeys) (path : String) :
    (children path v).Pairwise fun child child' => Parted child.path child'.path := by
  unfold children
  cases hfields : v.fields? with
  | none =>
    simp only [List.pairwise_map]
    exact (Step.pairwise_zipIdx v.items).imp fun hne rest rest' _ _ => apart_itemPath hne path rest rest'
  | some es =>
    obtain ⟨hnodup, hplain⟩ := hkeys 0 v (.self v) es hfields
    simp only [List.pairwise_map]
    refine (List.pairwise_map.mp hnodup).imp_of_mem fun {e e'} he he' hne => ?_
    obtain ⟨name, hname, hchars⟩ := hplain e he
    obtain ⟨name', hname', hchars'⟩ := hplain e' he'
    rw [hname, hname'] at hne ⊢
    exact parted_keyPath (fun h => hne (congrArg Value.text h)) hchars hchars' path

/-- The path of a child has one step more. -/
theorem path_of_mem_children {v : Value} {path : String} {child : Node} (h : child ∈ children path v) :
    ∃ step, step ≠ "" ∧ Continues step ∧ child.path = path ++ step := by
  have hfront (front rest : String) (hhead : ∃ c, startsStep c = true ∧ front.toList = [c]) :
      front ++ rest ≠ "" ∧ Continues (front ++ rest) := by
    obtain ⟨c, hc, hfront⟩ := hhead
    have hne : front ≠ "" := by
      rintro rfl
      simp at hfront
    have hcontinues : Continues front := by
      intro d hd
      simp only [hfront, List.head?_cons, Option.mem_def, Option.some.injEq] at hd
      exact hd ▸ hc
    exact ⟨fun he => hne (String.append_eq_empty_iff.mp he).1, hcontinues.append hne rest⟩
  unfold children at h
  split at h
  · obtain ⟨e, -, rfl⟩ := List.mem_map.mp h
    obtain ⟨hne, hstep⟩ := hfront "/" e.1.display ⟨'/', by decide, rfl⟩
    exact ⟨_, hne, hstep, by simp only [keyPath, String.append_assoc]⟩
  · obtain ⟨n, -, rfl⟩ := List.mem_map.mp h
    obtain ⟨hne, hstep⟩ := hfront "[" (Number.natText n.2 ++ "]") ⟨'[', by decide, rfl⟩
    exact ⟨_, hne, hstep, by simp only [itemPath, String.append_assoc]⟩

theorem path_of_mem_nodes {levels : Nat} {v : Value} {path : String} {node : Node}
    (h : node ∈ v.nodes levels path) : ∃ rest, Continues rest ∧ node.path = path ++ rest := by
  have hself (p : String) : ∃ rest, Continues rest ∧ p = p ++ rest :=
    ⟨"", by simp [Continues], (String.append_empty ..).symm⟩
  induction levels generalizing v path with
  | zero =>
    obtain rfl := List.mem_singleton.mp h
    exact hself path
  | succ levels ih =>
    rcases List.mem_cons.mp h with rfl | h
    · exact hself path
    · obtain ⟨child, hchild, h⟩ := List.mem_flatMap.mp h
      obtain ⟨step, hne, hstep, hpath⟩ := path_of_mem_children hchild
      obtain ⟨rest, -, hrest⟩ := ih h
      exact ⟨step ++ rest, hstep.append hne rest, by rw [hrest, hpath, String.append_assoc]⟩

/-- Different nodes have different paths. -/
theorem nodup_nodes {v : Value} (hkeys : v.HasPlainKeys) (levels : Nat) (path : String) :
    ((v.nodes levels path).map (·.path)).Nodup := by
  induction levels generalizing v path with
  | zero => exact List.nodup_singleton path
  | succ levels ih =>
    rw [nodes, List.map_cons, List.nodup_cons, List.map_flatMap, List.nodup_flatMap]
    refine ⟨fun hmem => ?_, fun child hchild => ?_, (children_parted hkeys path).imp fun hparted => ?_⟩
    · -- A node below has a longer path than the value itself.
      obtain ⟨child, hchild, hmem⟩ := List.mem_flatMap.mp hmem
      obtain ⟨node, hnode, heq⟩ := List.mem_map.mp hmem
      obtain ⟨step, hne, -, hstep⟩ := path_of_mem_children hchild
      obtain ⟨rest, -, hrest⟩ := path_of_mem_nodes hnode
      rw [hrest, hstep, String.append_assoc, String.append_eq_left_iff] at heq
      exact hne (String.append_eq_empty_iff.mp heq).1
    · exact ih (((hasPlainKeys_iff path).mp hkeys).2 child hchild) child.path
    · intro location ha hb
      obtain ⟨node, hnode, rfl⟩ := List.mem_map.mp ha
      obtain ⟨node', hnode', heq⟩ := List.mem_map.mp hb
      obtain ⟨rest, hcontinues, hrest⟩ := path_of_mem_nodes hnode
      obtain ⟨rest', hcontinues', hrest'⟩ := path_of_mem_nodes hnode'
      exact hparted rest rest' hcontinues hcontinues' (by rw [← hrest, ← hrest', heq])

end Value

/-! ## Calls -/

namespace Text

theorem occursIn_iff {part cs : List Char} : occursIn part cs = true ↔ part <:+: cs := by
  induction cs with
  | nil => rw [occursIn, List.isEmpty_iff, List.infix_nil]
  | cons c cs ih => rw [occursIn, Bool.or_eq_true, ih, List.isPrefixOf_iff_prefix, List.infix_cons_iff]

/-- No blank belongs to a word. -/
theorem isWord_of_isBlank {c : Char} (h : isBlank c = true) : isWord c = false := by
  have hwide : ∀ n ∈ [0x85, 0xA0, 0x1680, 0x2000, 0x2001, 0x2002, 0x2003, 0x2004, 0x2005, 0x2006, 0x2007,
      0x2008, 0x2009, 0x200A, 0x2028, 0x2029, 0x202F, 0x205F, 0x3000], inRuns wordRuns n = false := by
    decide +kernel
  unfold isWord
  by_cases hsmall : c.toNat < 0x80
  · rw [if_pos hsmall, ← Bool.not_eq_true]
    intro hname
    exact absurd h (by simp [Expression.isBlank_of_isNameChar hname])
  · rw [if_neg hsmall]
    apply hwide
    have hspace : c ≠ ' ' := by
      rintro rfl
      exact hsmall (by decide)
    simp only [isBlank, Bool.or_eq_true, Bool.and_eq_true, decide_eq_true_eq, beq_iff_eq, hspace, false_or] at h
    simp only [List.mem_cons, List.not_mem_nil, or_false]
    omega

end Text

namespace Validation

open Text

/-- A marker calls a word: the word stands at its start and a parenthesis opens after it, blanks aside. -/
def Calls (word inner : List Char) : Prop :=
  ∃ before between rest : List Char, (∀ c ∈ before, isBlank c = true) ∧
    (∀ c ∈ between, isBlank c = true) ∧ inner = before ++ word ++ between ++ '(' :: rest

variable {inner : List Char}

theorem calls_iff {c : Char} (hc : isBlank c = false) {word : List Char} :
    Calls (c :: word) inner ↔
      ∃ rest, trimStart inner = c :: word ++ rest ∧ (trimStart rest).head? = some '(' := by
  constructor
  · rintro ⟨before, between, rest, hbefore, hbetween, rfl⟩
    refine ⟨between ++ '(' :: rest, ?_, ?_⟩
    · rw [trimStart, List.append_assoc, List.append_assoc, List.dropWhile_append_of_pos hbefore, List.cons_append,
        List.dropWhile_cons_of_neg (by simp [hc])]
    · rw [trimStart, List.dropWhile_append_of_pos hbetween]
      rfl
  · rintro ⟨rest, htrim, hopen⟩
    obtain ⟨after, hafter⟩ := List.head?_eq_some_iff.mp hopen
    refine ⟨inner.takeWhile isBlank, rest.takeWhile isBlank, after, ?_, ?_, ?_⟩
    · exact fun d hd => List.mem_takeWhile_imp hd
    · exact fun d hd => List.mem_takeWhile_imp hd
    · have hinner : inner = inner.takeWhile isBlank ++ trimStart inner := List.takeWhile_append_dropWhile.symm
      have hrest : rest = rest.takeWhile isBlank ++ trimStart rest := List.takeWhile_append_dropWhile.symm
      rw [← hafter, List.append_assoc, ← hrest, List.append_assoc, ← htrim, ← hinner]

/-- A word ends where blanks and a parenthesis follow. -/
theorem ends_of_opens {rest : List Char} (h : (trimStart rest).head? = some '(') :
    rest.takeWhile isWord = [] ∧ rest.dropWhile isWord = rest := by
  cases rest with
  | nil => exact ⟨rfl, rfl⟩
  | cons c cs =>
    have hc : isWord c = false := by
      by_cases hblank : isBlank c = true
      · exact isWord_of_isBlank hblank
      · rw [trimStart, List.dropWhile_cons_of_neg hblank] at h
        obtain rfl := Option.some.inj h
        decide
    rw [List.takeWhile_cons_of_neg (by simp [hc]), List.dropWhile_cons_of_neg (by simp [hc])]
    exact ⟨rfl, rfl⟩

theorem isNameChar_of_isNameStart {c : Char} (h : isNameStart c = true) : isNameChar c = true := by
  rw [isNameStart, Bool.or_eq_true] at h
  rw [isNameChar, Char.isAlphanum, Bool.or_eq_true, Bool.or_eq_true]
  exact h.imp_left .inl

theorem isWord_of_isNameStart {c : Char} (h : isNameStart c = true) : isWord c = true :=
  Expression.isWord_of_isNameChar (isNameChar_of_isNameStart h)

/-- A marker starts with a call if it calls some word. -/
theorem isCall_iff : isCall inner = true ↔ ∃ c word, isNameStart c = true ∧
    (∀ d ∈ word, isWord d = true) ∧ Calls (c :: word) inner := by
  rw [isCall, Bool.and_eq_true, beq_iff_eq, Option.any_eq_true]
  constructor
  · rintro ⟨⟨c, hhead, hstart⟩, hopen⟩
    obtain ⟨cs, hcs⟩ := List.head?_eq_some_iff.mp hhead
    rw [hcs, List.dropWhile_cons_of_pos (isWord_of_isNameStart hstart)] at hopen
    refine ⟨c, cs.takeWhile isWord, hstart, fun d hd => List.mem_takeWhile_imp hd, ?_⟩
    rw [calls_iff (Program.isBlank_of_isNameStart hstart)]
    exact ⟨cs.dropWhile isWord, by rw [hcs, List.cons_append, List.takeWhile_append_dropWhile], hopen⟩
  · rintro ⟨c, word, hstart, hword, hcalls⟩
    obtain ⟨rest, htrim, hopen⟩ := (calls_iff (Program.isBlank_of_isNameStart hstart)).mp hcalls
    refine ⟨⟨c, by rw [htrim]; rfl, hstart⟩, ?_⟩
    rw [htrim, List.cons_append, List.dropWhile_cons_of_pos (isWord_of_isNameStart hstart),
      List.dropWhile_append_of_pos hword, (ends_of_opens hopen).2]
    exact hopen

/-- The root of a marker is what its inner text starts with, blanks aside. -/
theorem root?_spec {name : List Char} (h : Marker.root? inner = some name) :
    ∃ c cs, name = c :: cs ∧ Marker.isRootStart c = true ∧ (∀ d ∈ name, Marker.isRootChar d = true) ∧
      name <+: trimStart inner := by
  unfold Marker.root? at h
  split_ifs at h
  cases htrim : trimStart inner with
  | nil => simp [htrim] at h
  | cons c cs =>
    simp only [htrim] at h
    split_ifs at h with hstart
    obtain rfl := Option.some.inj h
    refine ⟨c, _, rfl, hstart, List.forall_mem_cons.mpr ⟨?_, fun d hd => List.mem_takeWhile_imp hd⟩,
      (List.prefix_cons_inj c).mpr (List.takeWhile_prefix _)⟩
    rw [Marker.isRootStart, Bool.or_eq_true] at hstart
    rw [Marker.isRootChar, Bool.or_eq_true]
    exact hstart.imp_left isNameChar_of_isNameStart

/-- A marker whose root is a word starts with a call exactly if it calls a word that starts with its root. -/
theorem isCall_iff_of_root {name : List Char} (hroot : Marker.root? inner = some name)
    (hname : ∀ c ∈ name, isWord c = true) : isCall inner = true ↔
      ∃ more, (∀ c ∈ more, isWord c = true) ∧ Calls (name ++ more) inner := by
  obtain ⟨c, cs, hcons, hstart, -, tail, htail⟩ := root?_spec hroot
  rw [isCall_iff]
  constructor
  · rintro ⟨d, word, hd, hword, hcalls⟩
    obtain ⟨rest, htrim, hopen⟩ := (calls_iff (Program.isBlank_of_isNameStart hd)).mp hcalls
    have hall : ∀ e ∈ d :: word, isWord e = true := List.forall_mem_cons.mpr ⟨isWord_of_isNameStart hd, hword⟩
    have hsame : name ++ tail.takeWhile isWord = d :: word := by
      calc name ++ tail.takeWhile isWord
          = (name ++ tail).takeWhile isWord := (List.takeWhile_append_of_pos hname).symm
        _ = (d :: word ++ rest).takeWhile isWord := by rw [htail, htrim]
        _ = d :: word ++ rest.takeWhile isWord := List.takeWhile_append_of_pos hall
        _ = d :: word := by rw [(ends_of_opens hopen).1, List.append_nil]
    exact ⟨tail.takeWhile isWord, fun e he => List.mem_takeWhile_imp he, hsame ▸ hcalls⟩
  · rintro ⟨more, hmore, hcalls⟩
    subst hcons
    have hc : isNameStart c = true := by
      rw [Marker.isRootStart, Bool.or_eq_true, beq_iff_eq] at hstart
      refine hstart.resolve_right ?_
      rintro rfl
      exact absurd (hname '$' List.mem_cons_self) (by decide)
    refine ⟨c, cs ++ more, hc, fun e he => ?_, hcalls⟩
    rcases List.mem_append.mp he with he | he
    · exact hname e (List.mem_cons_of_mem c he)
    · exact hmore e he

/-! ## Names that lack a definition -/

/-- A marker at a path may do without a definition of its root: it calls a word that starts with the name of
a builtin, or its root is a name of transforms and it stands inside of one. -/
def Exempt (path name : String) (inner : List Char) : Prop :=
  (name ∈ builtins ∧ ∃ more, (∀ c ∈ more, isWord c = true) ∧ Calls (name.toList ++ more) inner) ∨
    name ∈ transformNames ∧ "/data_transform".toList <:+: path.toList

theorem dollar_not_mem_of_mem_builtins {name : String} (h : name ∈ builtins) : '$' ∉ name.toList := by
  -- The characters of a literal take the kernel much longer than its bytes.
  have hbytes : ∀ builtin ∈ builtins, 36 ∉ builtin.toByteArray.data.toList := by decide +kernel
  intro hmem
  apply hbytes name h
  rw [← String.ofList_toList (s := name), String.toByteArray_ofList, List.utf8Encode, List.data_toByteArray]
  exact List.mem_flatMap.mpr ⟨'$', hmem, by decide⟩

/-- The name of a builtin that is the root of a marker is a word. -/
theorem isWord_of_mem_root {name : String} (hroot : Marker.root? inner = some name.toList)
    (hbuiltin : name ∈ builtins) : ∀ c ∈ name.toList, isWord c = true := by
  intro c hc
  obtain ⟨_, _, _, _, hchars, _⟩ := root?_spec hroot
  have hchar := hchars c hc
  rw [Marker.isRootChar, Bool.or_eq_true, beq_iff_eq] at hchar
  rcases hchar with hchar | rfl
  · exact Expression.isWord_of_isNameChar hchar
  · exact absurd hc (dollar_not_mem_of_mem_builtins hbuiltin)

theorem isExempt_iff {path name : String} (hroot : Marker.root? inner = some name.toList) :
    isExempt name.toList inner path = true ↔ Exempt path name inner := by
  rw [isExempt, String.ofList_toList, Bool.or_eq_true, Bool.and_eq_true, Bool.and_eq_true, List.contains_iff_mem,
    List.contains_iff_mem, occursIn_iff]
  unfold Exempt
  refine or_congr_left (and_congr_right fun hbuiltin => ?_)
  exact isCall_iff_of_root hroot (isWord_of_mem_root hroot hbuiltin)

/-- A marker at a path refers to a name that is not defined and needs to be. -/
structure Lacks (defined : List String) (path name : String) (inner : List Char) : Prop where
  root : Marker.root? inner = some name.toList
  undefined : name ∉ defined
  needed : ¬ Exempt path name inner

theorem lacks_iff {defined : List String} {path name : String} : Lacks defined path name inner ↔
    Marker.root? inner = some name.toList ∧
      (defined.contains name || isExempt name.toList inner path) = false := by
  rw [Bool.or_eq_false_iff, ← Bool.not_eq_true, ← Bool.not_eq_true, List.contains_iff_mem]
  constructor
  · rintro ⟨hroot, hdefined, hneeded⟩
    exact ⟨hroot, hdefined, fun h => hneeded ((isExempt_iff hroot).mp h)⟩
  · rintro ⟨hroot, hdefined, hneeded⟩
    exact ⟨hroot, hdefined, fun h => hneeded ((isExempt_iff hroot).mpr h)⟩

instance (defined : List String) (path name : String) : Decidable (Lacks defined path name inner) :=
  decidable_of_iff _ lacks_iff.symm

/-- The names that lack a definition in a node, each where it occurs first. -/
def lackingNames (defined : List String) (node : Value.Node) : List String :=
  ((Marker.innersOf node.value).filterMap fun inner =>
    ((Marker.root? inner).map String.ofList).filter fun name => Lacks defined node.path name inner).eraseDups

/-- The names that lack a definition, for each node of a value in turn. -/
def lacking (levels : Nat) (defined : List String) (document : Value) : List Undefined :=
  (document.nodes levels "").flatMap fun node => (lackingNames defined node).map fun name => ⟨name, node.path⟩

variable {defined : List String}

theorem undefinedNames_eq (node : Value.Node) : undefinedNames defined node = lackingNames defined node := by
  rw [undefinedNames, Program.distinctFrom_eq_eraseDups, lackingNames, List.filter_eq_self.mpr (by simp)]
  congr 2
  funext inner
  cases hroot : Marker.root? inner with
  | none => rfl
  | some name =>
    have hlacks : Lacks defined node.path (String.ofList name) inner ↔
        ¬ (defined.contains (String.ofList name) || isExempt name inner node.path) = true := by
      rw [lacks_iff, hroot, String.toList_ofList, and_iff_right rfl, Bool.not_eq_true]
    rw [Option.bind_some, Option.map_some, Option.filter_some]
    by_cases hexempt : (defined.contains (String.ofList name) || isExempt name inner node.path) = true
    · rw [if_pos hexempt, if_neg fun h => hlacks.mp (of_decide_eq_true h) hexempt]
    · rw [if_neg hexempt, if_pos (decide_eq_true (hlacks.mpr hexempt))]

theorem nodup_lackingNames (node : Value.Node) : (lackingNames defined node).Nodup := by
  rw [← undefinedNames_eq]
  exact Program.nodup_distinctFrom _ _

theorem mem_lackingNames {node : Value.Node} {name : String} : name ∈ lackingNames defined node ↔
    ∃ text, node.value = .text text ∧ ∃ inner ∈ Marker.inners text, Lacks defined node.path name inner := by
  rw [lackingNames, List.mem_eraseDups, List.mem_filterMap]
  constructor
  · rintro ⟨inner, hinner, hname⟩
    have hlacks : Lacks defined node.path name inner := by
      simpa using (Option.mem_filter_iff.mp hname).2
    cases hvalue : node.value with
    | text text => exact ⟨text, rfl, inner, by simpa [hvalue, Marker.innersOf] using hinner, hlacks⟩
    | _ => simp [hvalue, Marker.innersOf] at hinner
  · rintro ⟨text, hvalue, inner, hinner, hlacks⟩
    refine ⟨inner, by rwa [hvalue], ?_⟩
    rw [hlacks.root, Option.map_some, String.ofList_toList, Option.filter_some, if_pos (by simpa using hlacks)]

theorem mem_lacking {levels : Nat} {document : Value} {name path : String} :
    ⟨name, path⟩ ∈ lacking levels defined document ↔ ∃ text, ⟨.text text, path⟩ ∈ document.nodes levels "" ∧
      ∃ inner ∈ Marker.inners text, Lacks defined path name inner := by
  rw [lacking, List.mem_flatMap]
  constructor
  · rintro ⟨⟨value, location⟩, hnode, hmem⟩
    obtain ⟨name', hname, heq⟩ := List.mem_map.mp hmem
    obtain ⟨rfl, rfl⟩ := Undefined.mk.inj heq
    obtain ⟨text, rfl, hlacks⟩ := mem_lackingNames.mp hname
    exact ⟨text, hnode, hlacks⟩
  · rintro ⟨text, hnode, hlacks⟩
    exact ⟨_, hnode, List.mem_map.mpr ⟨name, mem_lackingNames.mpr ⟨text, rfl, hlacks⟩, rfl⟩⟩

/-- References that are all different all count. -/
theorem firstReferences_of_nodup {seen us : List Undefined} (hnodup : us.Nodup) (hseen : ∀ u ∈ us, u ∉ seen) :
    firstReferences seen us = us := by
  induction us generalizing seen with
  | nil => rfl
  | cons u us ih =>
    obtain ⟨hu, hnodup⟩ := List.nodup_cons.mp hnodup
    have hfirst : ¬ seen.contains u = true := by
      rw [List.contains_iff_mem]
      exact hseen u List.mem_cons_self
    rw [firstReferences, if_neg hfirst, ih hnodup]
    intro u' hu' hmem
    rcases List.mem_cons.mp hmem with rfl | hmem
    · exact hu hu'
    · exact hseen u' (List.mem_cons_of_mem u hu') hmem

theorem nodup_lacking {document : Value} (hkeys : document.HasPlainKeys) (levels : Nat) :
    (lacking levels defined document).Nodup := by
  rw [lacking, List.nodup_flatMap]
  constructor
  · intro node _
    exact (nodup_lackingNames node).map fun name name' h => congrArg Undefined.name h
  · refine (List.pairwise_map.mp (Value.nodup_nodes hkeys levels "")).imp fun hne u hu hu' => ?_
    obtain ⟨name, -, rfl⟩ := List.mem_map.mp hu
    obtain ⟨name', -, heq⟩ := List.mem_map.mp hu'
    exact hne (congrArg Undefined.path heq).symm

theorem undefinedReferences_eq {document : Value} (hkeys : document.HasPlainKeys) (levels : Nat) :
    undefinedReferences levels defined document = lacking levels defined document := by
  have hall : ((document.nodes levels "").flatMap fun node =>
      (undefinedNames defined node).map fun name => (⟨name, node.path⟩ : Undefined)) =
        lacking levels defined document := by
    simp only [undefinedNames_eq, lacking]
  rw [undefinedReferences, hall]
  exact firstReferences_of_nodup (nodup_lacking hkeys levels) fun _ _ => List.not_mem_nil

/-- The warnings about references are, node by node, one for each name that lacks a definition there. The nodes
are told apart by their paths, so no name is reported twice at a place. -/
theorem references_reported {document : Fields} (hkeys : (Value.map document).HasPlainKeys)
    (settings : Settings) :
    (∀ warnings, checkReferences settings document = .ok warnings ↔
      ∃ defined levels, definedNames settings document = .ok defined ∧ settings.walkLevels = .ok levels ∧
        warnings = (lacking levels defined (.map document)).map undefinedWarning) ∧
    ∀ defined levels, (((Value.map document).nodes levels "").map (·.path)).Nodup ∧
      (lacking levels defined (.map document)).Nodup ∧
      ∀ name path, ⟨name, path⟩ ∈ lacking levels defined (.map document) ↔
        ∃ text, ⟨.text text, path⟩ ∈ (Value.map document).nodes levels "" ∧
          ∃ inner ∈ Marker.inners text, Lacks defined path name inner := by
  constructor
  · intro warnings
    unfold checkReferences
    constructor
    · intro h
      obtain ⟨defined, hdefined, h⟩ := bind_eq_ok.mp h
      obtain ⟨levels, hlevels, h⟩ := bind_eq_ok.mp h
      rw [undefinedReferences_eq hkeys] at h
      exact ⟨defined, levels, hdefined, hlevels, (Except.ok.inj h).symm⟩
    · rintro ⟨defined, levels, hdefined, hlevels, rfl⟩
      rw [hdefined, hlevels, ← undefinedReferences_eq hkeys]
      rfl
  · intro defined levels
    exact ⟨Value.nodup_nodes hkeys levels "", nodup_lacking hkeys levels, fun name path => mem_lacking⟩

/-- A document whose only step has a text. -/
def sayingDocument (text : String) : Fields :=
  [(.text "web", .map []),
    (.text "tasks", .list [.map [(.text "name", .text "t"), (.text "flow", .list [.map [(.text "ai", .text text)]])]])]

theorem sayingDocument_hasPlainKeys (text : String) : (Value.map (sayingDocument text)).HasPlainKeys := by
  have hflow : (Value.list [.map [(.text "ai", .text text)]]).HasPlainKeys := by
    simp [Value.hasPlainKeys_list, Value.hasPlainKeys_map, Value.hasPlainKeys_text, Fields.HasPlainKeys,
      Value.startsStep]
  simp [sayingDocument, Value.hasPlainKeys_list, Value.hasPlainKeys_map, Value.hasPlainKeys_text, hflow,
    Fields.HasPlainKeys, Value.startsStep]

/-- A text with a call of a builtin, an undefined name and the builtin without a call. -/
def mixedText : String := "$\x7blen(row)\x7d, $\x7brow\x7d and $\x7blen\x7d"

theorem mixedText_references_reported : (Value.map (sayingDocument mixedText)).HasPlainKeys ∧ ∃ defined levels,
    definedNames {} (sayingDocument mixedText) = .ok defined ∧ Settings.walkLevels {} = .ok levels ∧
    [undefinedWarning ⟨"row", "/tasks[0]/flow[0]/ai"⟩, undefinedWarning ⟨"len", "/tasks[0]/flow[0]/ai"⟩] =
      (lacking levels defined (.map (sayingDocument mixedText))).map undefinedWarning :=
  ⟨sayingDocument_hasPlainKeys _,
    ((references_reported (sayingDocument_hasPlainKeys _) {}).1 _).mp (by decide +kernel)⟩

/-- A text with a call of a longer word that starts with the name of a builtin. -/
def longerText : String := "$\x7blené(rows)\x7d"

/-- The call of the longer word is not reported, although its root is neither defined nor called. -/
theorem longerText_not_reported : (Value.map (sayingDocument longerText)).HasPlainKeys ∧
    checkReferences {} (sayingDocument longerText) = .ok [] ∧
    definedNames {} (sayingDocument longerText) = .ok [] ∧ Settings.walkLevels {} = .ok 50 ∧
    ⟨.text longerText, "/tasks[0]/flow[0]/ai"⟩ ∈ (Value.map (sayingDocument longerText)).nodes 50 "" ∧
    Marker.inners longerText = ["lené(rows)".toList] ∧
    Marker.root? "lené(rows)".toList = some "len".toList ∧ ¬ Calls "len".toList "lené(rows)".toList ∧
    "len" ∉ transformNames := by
  refine ⟨sayingDocument_hasPlainKeys _, by decide +kernel, by decide +kernel, by decide +kernel, ?_,
    by decide +kernel, by decide +kernel, ?_, by decide⟩
  · exact List.mem_of_getElem? (i := 7) rfl
  · intro hcalls
    obtain ⟨rest, htrim, hopen⟩ := (calls_iff (by decide)).mp hcalls
    have hlists : "len".toList ++ "é(rows)".toList = "len".toList ++ rest := htrim
    rw [← List.append_cancel_left hlists] at hopen
    exact absurd hopen (by decide +kernel)

end Validation

end FlowScript
