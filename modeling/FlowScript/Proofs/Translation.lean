import FlowScript.Proofs.Pass
import FlowScript.Proofs.Tokens

/-!
# Expressions token by token

The main statement is that, where one space stands between the tokens of an expression, the program text of
the expression is the sequence of the translations of its tokens. Runs of tokens between protected ones are
followed through the passes as a whole, since operators bring spaces and a parenthesis tells what is called.
-/
namespace FlowScript

namespace Expression

/-! ## Runs of tokens -/

section Runs

variable (bound : String → Bool)

/-- A space that may stand at the end of a text. -/
def lastSpace (spaced : Bool) : List Char := if spaced then [' '] else []

/-- The exchanged texts of tokens, each of them after a space. -/
def cores (run : List Plain) (spaced : Bool) : List Char := run.flatMap (fun p => ' ' :: p.core) ++ lastSpace spaced

theorem pieces_space (cs more : List Char) : pieces (cs ++ ' ' :: more) = pieces cs ++ .other ' ' :: pieces more :=
  pieces_append (by decide) cs more

theorem atSpace_cores (run : List Plain) (spaced : Bool) : AtSpace (pieces (cores run spaced)) := by
  rcases run with _ | ⟨p, run⟩
  · cases spaced
    · exact .inl rfl
    · exact .inr ⟨[], rfl⟩
  · exact .inr ⟨_, pieces_space [] _⟩

theorem pieces_cores (p : Plain) (run : List Plain) (spaced : Bool) :
    pieces (cores (p :: run) spaced) = .other ' ' :: (pieces p.core ++ pieces (cores run spaced)) := by
  have hfirst : cores (p :: run) spaced = [] ++ ' ' :: (p.core ++ cores run spaced) := by simp [cores]
  rw [hfirst, pieces_space]
  rcases run with _ | ⟨q, run⟩
  · cases spaced
    · simp [cores, lastSpace, pieces]
    · exact congrArg (.other ' ' :: ·) (pieces_space p.core [])
  · have hnext : cores (q :: run) spaced = ' ' :: (q.core ++ cores run spaced) := by simp [cores]
    rw [hnext, pieces_space]
    exact congrArg (.other ' ' :: pieces p.core ++ ·) (pieces_space [] _).symm

theorem isCallOrArgument_cores (run : List Plain) (spaced : Bool) :
    isCallOrArgument (pieces (cores run spaced)) = (run.map Token.plain).head?.any Token.isOpen := by
  cases run with
  | nil => cases spaced <;> rfl
  | cons p run =>
    rw [pieces_cores, p.isCallOrArgument_core]
    rfl

/-- The fields of a run of tokens are read one after the other. -/
theorem readFields_cores (run : List Plain) (spaced : Bool) :
    readFields bound "item" none (pieces (cores run spaced)) =
      (translations bound (run.map .plain)).flatMap (' ' :: ·) ++ lastSpace spaced := by
  induction run with
  | nil => cases spaced <;> rfl
  | cons p run ih =>
    rw [pieces_cores, readFields, readFields_space, p.readFields_core bound (atSpace_cores run spaced), ih,
      isCallOrArgument_cores]
    simp [translations, Token.translation]

theorem exchangeWords_run (run : List Plain) : exchangeWords (run.flatMap fun p => ' ' :: p.text) =
    run.flatMap fun p => ' ' :: exchangeWords p.text := by
  simpa [List.flatMap_map] using exchangeWords_wordwise.flatMap (run.map Plain.text)

theorem collapseSpaces_run (run : List Plain) :
    collapseSpaces (run.flatMap (fun p => ' ' :: exchangeWords p.text) ++ [' ']) = cores run true :=
  collapseSpaces_words (fun p _ => ⟨p.core_solid.ne_nil, p.core_solid.space_not_mem⟩)
    fun p _ => p.exchangeWords_text

/-- A run of tokens up to protected text. -/
theorem segment_run (run : List Plain) :
    segment bound (some "item") (run.flatMap (fun p => ' ' :: p.text) ++ [' ']) =
      (translations bound (run.map .plain)).flatMap (' ' :: ·) ++ [' '] := by
  have hwords : exchangeWords (run.flatMap (fun p => ' ' :: p.text) ++ [' ']) =
      run.flatMap (fun p => ' ' :: exchangeWords p.text) ++ [' '] := by
    rw [exchangeWords_wordwise.space, exchangeWords_run, exchangeWords_wordwise.nil]
  rw [segment_eq, hwords, collapseSpaces_run, readFields_cores]
  rfl

/-- A run of tokens at the end of an expression. An operator may leave a space behind. -/
theorem segment_run_end (run : List Plain) : ∃ spaced,
    segment bound (some "item") (run.flatMap fun p => ' ' :: p.text) =
      (translations bound (run.map .plain)).flatMap (' ' :: ·) ++ lastSpace spaced := by
  -- With one more space behind it the run is known; that space is either merged or the last one.
  have hspaced := collapseSpaces_run run
  rw [segment_eq, exchangeWords_run]
  rcases collapseSpaces_concat (run.flatMap fun p => ' ' :: exchangeWords p.text) with h | h
  · exact ⟨true, by rw [← h, hspaced, readFields_cores]⟩
  · refine ⟨false, ?_⟩
    have hcores : collapseSpaces (run.flatMap fun p => ' ' :: exchangeWords p.text) = cores run false := by
      rw [h] at hspaced
      simpa [cores, lastSpace] using hspaced
    rw [hcores, readFields_cores]

end Runs

/-! ## Protected tokens -/

/-- A token in quotes or braces is found as protected text. -/
def Token.shield? : Token → Option Protected
  | .plain _ => none
  | .quoted double body _ => some (.quoted (quoteMark double :: (body ++ [quoteMark double])))
  | .marker inner _ _ => some (.marker inner)

theorem Token.protected?_text {t : Token} {shield : Protected} (h : t.shield? = some shield) (rest : List Char) :
    protected? (t.text ++ rest) = some ⟨shield, rest⟩ := by
  cases t with
  | plain p => cases h
  | quoted double body closed =>
    obtain rfl := Option.some.inj h
    have hbody : ∀ c ∈ body, (c != quoteMark double) = true := fun c hc => by
      simpa using fun heq : c = quoteMark double => closed (heq ▸ hc)
    have hquoted : quoted? (quoteMark double) (body ++ quoteMark double :: rest) =
        some ⟨.quoted (quoteMark double :: (body ++ [quoteMark double])), rest⟩ := by
      simp [quoted?, List.takeWhile_append_of_pos hbody, List.dropWhile_append_of_pos hbody]
    rw [Token.text, List.cons_append, List.append_assoc, List.singleton_append]
    cases double <;> exact hquoted
  | marker inner closed path =>
    obtain rfl := Option.some.inj h
    have hne : inner ≠ [] := by
      rintro rfl
      exact absurd path (by decide)
    have hread := Marker.read?_marker hne closed rest
    rw [Token.text, List.cons_append, List.cons_append, List.append_assoc, List.singleton_append, protected?, hread]
    · rfl
    all_goals simp

theorem Token.shield_code (bound : String → Bool) (called : Bool) {t : Token} {shield : Protected}
    (h : t.shield? = some shield) :
    shield.code Marker.lookup = t.translation bound called ∧ t.isOpen = false := by
  cases t with
  | plain p => cases h
  | quoted double body closed =>
    obtain rfl := Option.some.inj h
    exact ⟨rfl, rfl⟩
  | marker inner closed path =>
    obtain rfl := Option.some.inj h
    exact ⟨rfl, rfl⟩

theorem translations_append (bound : String → Bool) (run : List Plain) {t : Token} (h : t.isOpen = false)
    (rest : List Token) :
    translations bound (run.map .plain ++ t :: rest) =
      translations bound (run.map .plain) ++ translations bound (t :: rest) := by
  induction run with
  | nil => rfl
  | cons p run ih =>
    have hnext : (run.map Token.plain ++ t :: rest).head?.any Token.isOpen =
        (run.map Token.plain).head?.any Token.isOpen := by
      cases run with
      | nil => exact h
      | cons q run => rfl
    rw [List.map_cons, List.cons_append, translations, translations, ih, hnext, List.cons_append]

/-- A sequence of tokens as it is written, with a space in front of each. -/
def spacedText (tokens : List Token) : List Char := tokens.flatMap fun t => ' ' :: t.text

theorem spacedText_run (run : List Plain) :
    spacedText (run.map .plain) = run.flatMap fun p => ' ' :: p.text := by
  rw [spacedText, List.flatMap_map]
  rfl

theorem not_mem_shieldChars_run (run : List Plain) :
    ∀ c ∈ run.flatMap fun p => ' ' :: p.text, c ∉ shieldChars := by
  intro c hc
  obtain ⟨p, -, hc⟩ := List.mem_flatMap.mp hc
  rcases List.mem_cons.mp hc with rfl | hc
  · decide
  · exact p.not_mem_shieldChars c hc

section Written

variable (bound : String → Bool)

/-- A run of tokens is translated up to the next protected token. -/
theorem written_shield (run : List Plain) {t : Token} {shield : Protected} (h : t.shield? = some shield)
    (tokens : List Token) :
    (split (spacedText (run.map .plain ++ t :: tokens))).written bound (some "item") Marker.lookup =
      (translations bound (run.map .plain)).flatMap (' ' :: ·) ++ ' ' ::
        (shield.code Marker.lookup ++ (split (spacedText tokens)).written bound (some "item") Marker.lookup) := by
  have htext : spacedText (run.map .plain ++ t :: tokens) =
      (run.flatMap (fun p => ' ' :: p.text) ++ [' ']) ++ (t.text ++ spacedText tokens) := by
    rw [spacedText, List.flatMap_append, ← spacedText, spacedText_run]
    simp [spacedText]
  have hspace : ∀ c ∈ run.flatMap (fun p => ' ' :: p.text) ++ [' '], c ∉ shieldChars :=
    List.forall_mem_append.mpr ⟨not_mem_shieldChars_run run, List.forall_mem_singleton.mpr (by decide)⟩
  have hsplit := split_append hspace (t.text ++ spacedText tokens)
  rw [split_of_protected?_some (t.protected?_text h _), Split.foldr_push_part, List.append_nil] at hsplit
  rw [htext, hsplit, Split.written_part, segment_run, List.append_assoc, List.singleton_append]

/-- Tokens are translated one after the other. The tokens since the last protected one are still to be
translated; only at the end may a space too many be left. -/
theorem written_tokens (run : List Plain) (tokens : List Token) : ∃ spaced,
    (split (spacedText (run.map .plain ++ tokens))).written bound (some "item") Marker.lookup =
      (translations bound (run.map .plain ++ tokens)).flatMap (' ' :: ·) ++ lastSpace spaced := by
  induction tokens generalizing run with
  | nil =>
    obtain ⟨spaced, hsegment⟩ := segment_run_end bound run
    have hsplit := split_append (not_mem_shieldChars_run run) []
    rw [List.append_nil, split_nil, Split.foldr_push_end, List.append_nil] at hsplit
    exact ⟨spaced, by rw [List.append_nil, spacedText_run, hsplit, Split.written_end, hsegment]⟩
  | cons t tokens ih =>
    cases hshield : t.shield? with
    | none =>
      cases t with
      | plain p =>
        -- A plain token only makes the run longer.
        obtain ⟨spaced, h⟩ := ih (run ++ [p])
        exact ⟨spaced, by simpa using h⟩
      | quoted double body closed => cases hshield
      | marker inner closed path => cases hshield
    | some shield =>
      obtain ⟨spaced, hothers⟩ := ih []
      obtain ⟨hcode, hopen⟩ := t.shield_code bound (tokens.head?.any Token.isOpen) hshield
      rw [List.map_nil, List.nil_append] at hothers
      refine ⟨spaced, ?_⟩
      rw [written_shield bound run hshield, hothers, hcode, translations_append bound run hopen, translations]
      simp

end Written

/-! ## Ends -/

/-- A text that neither starts nor ends with a blank. -/
structure Trimmed (cs : List Char) : Prop where
  head : ∃ c, cs.head? = some c ∧ Text.isBlank c = false
  last : ∃ c, cs.getLast? = some c ∧ Text.isBlank c = false

theorem Solid.trimmed {cs : List Char} (h : Solid cs) : Trimmed cs where
  head := ⟨cs.head h.ne_nil, List.head?_eq_some_head h.ne_nil, h.chars _ (List.head_mem h.ne_nil)⟩
  last := ⟨cs.getLast h.ne_nil, List.getLast?_eq_some_getLast h.ne_nil, h.chars _ (List.getLast_mem h.ne_nil)⟩

namespace Trimmed

variable {a b : List Char}

theorem append (ha : Trimmed a) (hb : Trimmed b) (between : List Char) : Trimmed (a ++ (between ++ b)) where
  head := by
    obtain ⟨c, hc, hblank⟩ := ha.head
    exact ⟨c, by simp [hc], hblank⟩
  last := by
    obtain ⟨c, hc, hblank⟩ := hb.last
    exact ⟨c, by simp [hc], hblank⟩

/-- Blanks around a text are taken away, and no more. -/
theorem trim_eq (h : Trimmed a) (spaced : Bool) : Text.trim (' ' :: (a ++ lastSpace spaced)) = a := by
  obtain ⟨c, hc, hfirst⟩ := h.head
  obtain ⟨d, hd, hlast⟩ := h.last
  obtain ⟨rest, hrest⟩ := List.head?_eq_some_iff.mp hc
  have hstart : Text.trimStart (' ' :: (a ++ lastSpace spaced)) = a ++ lastSpace spaced := by
    rw [Text.trimStart, List.dropWhile_cons_of_pos (by decide), hrest, List.cons_append,
      List.dropWhile_cons_of_neg (by simp [hfirst])]
  obtain ⟨front, hfront⟩ : ∃ front, a.reverse = d :: front := by
    rw [← List.head?_reverse] at hd
    exact List.head?_eq_some_iff.mp hd
  have hend : (a ++ lastSpace spaced).reverse.dropWhile Text.isBlank = a.reverse := by
    have hblank : ∀ e ∈ (lastSpace spaced).reverse, Text.isBlank e = true :=
      List.all_eq_true.mp (by cases spaced <;> decide)
    rw [List.reverse_append, List.dropWhile_append_of_pos hblank, hfront,
      List.dropWhile_cons_of_neg (by simp [hlast])]
  rw [Text.trim, hstart, Text.trimEnd, hend, List.reverse_reverse]

end Trimmed

theorem lookup_trimmed (name : List Char) : Trimmed (Marker.lookup name) := by
  have hopen : Trimmed "os.environ.get('".toList :=
    ⟨⟨'o', by decide +kernel, by decide⟩, ⟨'\'', by decide +kernel, by decide⟩⟩
  have hclose : Trimmed "', '')".toList :=
    ⟨⟨'\'', by decide +kernel, by decide⟩, ⟨')', by decide +kernel, by decide⟩⟩
  unfold Marker.lookup
  rw [List.append_assoc]
  exact hopen.append hclose name

theorem subscript_eq_append (s : Reference.Segment) : ∃ front, s.subscript = front ++ [']'] := by
  cases s with
  | index digits => exact ⟨'[' :: digits, rfl⟩
  | key name => exact ⟨'[' :: '\'' :: (name ++ ['\'']), by simp [Reference.Segment.subscript]⟩

theorem expression_trimmed {inner : List Char} (h : Reference.isPath (Text.trim inner) = true) :
    Trimmed (Marker.expression inner) := by
  unfold Marker.expression
  cases Marker.environmentName? inner with
  | some name => exact lookup_trimmed name
  | none =>
    obtain ⟨root, tail, -, hroot, hform, -⟩ := Reference.eq_append_of_isPath h
    dsimp only
    rw [if_pos h, Reference.subscripts_of_isPath h, hroot]
    have hsolid : Trimmed root := by
      refine Solid.trimmed ⟨?_, fun c hc => isBlank_of_isNameChar (Reference.isNameChar_of_hasNameForm hform hc)⟩
      rintro rfl
      cases hform
    rcases List.eq_nil_or_concat (Reference.segments ((Text.trim inner).drop root.length)) with hnil | ⟨init, s, hs⟩
    · rw [hnil, List.flatMap_nil, List.append_nil]
      exact hsolid
    · obtain ⟨front, hfront⟩ := subscript_eq_append s
      have hbracket : Trimmed [']'] := ⟨⟨_, rfl, by decide⟩, ⟨_, rfl, by decide⟩⟩
      rw [hs, List.concat_eq_append, List.flatMap_append, List.flatMap_singleton, hfront,
        ← List.append_assoc (init.flatMap _)]
      exact hsolid.append hbracket _

theorem Token.translation_trimmed (bound : String → Bool) (called : Bool) (t : Token) :
    Trimmed (t.translation bound called) := by
  cases t with
  | plain p => exact (p.translation_solid bound called).trimmed
  | quoted double body closed =>
    have hblank : Text.isBlank (quoteMark double) = false := by cases double <;> decide
    have hlast : ((quoteMark double :: body) ++ [quoteMark double]).getLast? = _ := List.getLast?_concat
    exact ⟨⟨_, rfl, hblank⟩, ⟨_, hlast, hblank⟩⟩
  | marker inner closed path => exact expression_trimmed path

theorem translations_trimmed (bound : String → Bool) (t : Token) (tokens : List Token) :
    Trimmed (List.intercalate [' '] (translations bound (t :: tokens))) := by
  induction tokens generalizing t with
  | nil =>
    rw [translations, translations, List.intercalate_singleton]
    exact t.translation_trimmed bound _
  | cons next tokens ih =>
    have hothers := ih next
    rw [translations] at hothers ⊢
    rw [translations, List.intercalate_cons_cons, List.append_assoc]
    exact (t.translation_trimmed bound _).append hothers [' ']

theorem flatMap_space (w : List Char) (words : List (List Char)) :
    (w :: words).flatMap (' ' :: ·) = ' ' :: List.intercalate [' '] (w :: words) := by
  induction words generalizing w with
  | nil => simp
  | cons next words ih => rw [List.flatMap_cons, ih, List.intercalate_cons_cons]; simp

/-- The program text of a sequence of tokens is the sequence of their translations. -/
theorem code_tokens (bound : String → Bool) (tokens : List Token) :
    code bound (some "item") (String.ofList (List.intercalate [' '] (tokens.map Token.text))) =
      String.ofList (List.intercalate [' '] (translations bound tokens)) := by
  cases tokens with
  | nil =>
    have hempty : segment bound (some "item") [] = [] := rfl
    rw [List.map_nil, List.intercalate_nil, code_eq_written, String.toList_ofList, split_nil, Split.written_end,
      hempty]
    rfl
  | cons t tokens =>
    obtain ⟨spaced, hwritten⟩ := written_tokens bound [] (t :: tokens)
    -- With a space in front the first token is like all the others.
    have htext : ' ' :: List.intercalate [' '] ((t :: tokens).map Token.text) = spacedText (t :: tokens) := by
      rw [List.map_cons, ← flatMap_space, ← List.map_cons, List.flatMap_map, spacedText]
    have htrimmed := translations_trimmed bound t tokens
    rw [← code_space, htext, code_eq_written, String.toList_ofList]
    rw [List.map_nil, List.nil_append] at hwritten
    rw [translations] at hwritten htrimmed ⊢
    rw [hwritten, flatMap_space, List.cons_append, htrimmed.trim_eq]

end Expression

namespace Program

open Expression Pass

/-- The program text of an expression whose tokens are one space apart is the sequence of their translations. -/
theorem expression_translated (ctx : Context) (hlookup : ctx.agent.lookup = Marker.lookup) (tokens : List Token)
    (s : State) :
    ∃ s', (expressionCode ctx (some "item")
        (.text (String.ofList (List.intercalate [' '] (tokens.map Token.text))))).Runs s
      (String.ofList (List.intercalate [' '] (translations s.scope.contains tokens))) s' := by
  rw [← code_tokens, ← hlookup]
  simp only [expressionCode]
  split_ifs
  · simp only [requireImport, runs_bind, runs_modify, runs_get, runs_pure]
    exact ⟨_, (), _, rfl, _, _, ⟨rfl, rfl⟩, rfl, rfl⟩
  · simp only [runs_bind, runs_get, runs_pure]
    exact ⟨s, s, s, ⟨rfl, rfl⟩, rfl, rfl⟩

def userName : Name := ⟨['u', 's', 'e', 'r'], by decide, by rintro (_ | _ | _ | _) <;> decide⟩

def ageName : Name := ⟨['a', 'g', 'e'], by decide, by rintro (_ | _ | _ | _) <;> decide⟩

def tidyName : Name := ⟨['t', 'i', 'd', 'y'], by decide, by rintro (_ | _ | _ | _) <;> decide⟩

/-- A condition with a token of every kind. -/
def conditionTokens : List Token :=
  [.plain (.operator .negation), .plain (.operator .openParen), .plain (.path userName ageName []),
    .plain (.operator .atLeast), .plain (.number ['1', '8'] (by decide) (List.all_eq_true.mp (by decide))),
    .plain (.operator .both), .plain (.name ageName), .plain (.operator .different), .plain (.constant .null),
    .plain (.operator .closeParen), .plain (.operator .either), .plain (.name tidyName),
    .plain (.operator .openParen), .plain (.name tidyName), .plain (.operator .closeParen),
    .plain (.operator .identical), .quoted true ['i', 't', '\'', 's', ' ', '&', '&'] (by decide),
    .plain (.operator .plus), .marker ['a', '.', 'b'] (by decide) (by decide +kernel)]

theorem condition_translated :
    ∃ s', (expressionCode {} (some "item") (.text
        "! ( user.age >= 18 && age !== null ) || tidy ( tidy ) === \"it's &&\" + $\x7ba.b\x7d")).Runs
      { scope := ⟨["user"]⟩ }
      "not ( user['age'] >= 18 and item['age'] != None ) or tidy ( item['tidy'] ) == \"it's &&\" + a['b']" s' := by
  have htext : String.ofList (List.intercalate [' '] (conditionTokens.map Token.text)) =
      "! ( user.age >= 18 && age !== null ) || tidy ( tidy ) === \"it's &&\" + $\x7ba.b\x7d" := by
    decide +kernel
  have htranslation :
      String.ofList (List.intercalate [' '] (translations (Scope.contains ⟨["user"]⟩) conditionTokens)) =
      "not ( user['age'] >= 18 and item['age'] != None ) or tidy ( item['tidy'] ) == \"it's &&\" + a['b']" := by
    decide +kernel
  rw [← htext, ← htranslation]
  exact expression_translated {} rfl conditionTokens { scope := ⟨["user"]⟩ }

end Program

end FlowScript
