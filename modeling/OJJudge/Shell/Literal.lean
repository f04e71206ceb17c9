import OJJudge.Shell.Scanner

/-! Command lines that expand to the words they spell.  A line of words joined by blanks does so in
every environment exactly when each word is literal. -/

namespace Shell

open scoped List

/-! ### The words of a calm line -/

/-- What a piece expands to when it is no expansion, or its value is empty. -/
def glyphsOf : Piece → List Glyph
  | .char quoted c => [.char quoted c]
  | .quotes => [.quotes]
  | .blank => [.split]
  | .param _ _ | .braced _ _ | .arith _ _ | .command _ _ | .unspecified => []

/-- The paths that a word stands for. -/
def globbed (env : Env) (w : List Char) : List (List Char) := pathnames env (w.map (Prod.mk false))

section Words

variable {env : Env} {text w : List Char} {ws : List (List Char)}

theorem mapM_eq_some {α β : Type} {f : α → Option β} {g : α → β} :
    {l : List α} → (∀ a ∈ l, f a = some (g a)) → l.mapM f = some (l.map g)
  | [], _ => rfl
  | a :: l, h => by
    rw [List.mapM_cons, h a (List.mem_cons_self ..),
      mapM_eq_some fun b hb => h b (List.mem_cons_of_mem a hb)]
    rfl

theorem expandWord_eq {word : List Piece} (htilde : expandTilde env word = word)
    (hpieces : ∀ piece ∈ word, expandPiece env piece = some (glyphsOf piece)) :
    expandWord env word = some (segments (· = .split) (word.flatMap glyphsOf)) := by
  rw [expandWord, htilde, mapM_eq_some hpieces]
  rfl

theorem expandWord_plain (hw : w ≠ [])
    (htilde : expandTilde env (w.map (.char false)) = w.map (.char false)) :
    expandWord env (w.map (.char false)) = some [w.map (.char false)] := by
  have hglyphs : (w.map (Piece.char false)).flatMap glyphsOf = w.map (Glyph.char false) := by
    rw [List.flatMap_map]
    exact List.flatMap_pure_eq_map _ w
  rw [expandWord_eq htilde fun piece hpiece => ?_, hglyphs, segments_of_not_sep]
  · simpa using hw
  · intro glyph hglyph
    obtain ⟨c, -, rfl⟩ := List.mem_map.mp hglyph
    rfl
  · obtain ⟨c, -, rfl⟩ := List.mem_map.mp hpiece
    rfl

theorem segments_plain (text : List Char) :
    segments (· = .blank) (text.map plain) =
      (segments isBlank text).map (List.map (Piece.char false)) := by
  have hsep : (fun piece => decide (piece = Piece.blank)) ∘ plain = isBlank := by
    funext c
    show decide (plain c = .blank) = isBlank c
    unfold plain
    split
    · next hc => simp [hc]
    · next hc => simp [hc]
  rw [segments_map, hsep]
  refine List.map_congr_left fun w hw => List.map_congr_left fun c hc => ?_
  rw [plain, (mem_segments hw).2.1 c hc]
  rfl

theorem fieldOf_plain (w : List Char) : fieldOf (w.map (.char false)) = w.map (Prod.mk false) := by
  rw [fieldOf, List.filterMap_map]
  exact congrFun List.filterMap_eq_map' w

/-- A calm line expands to the paths that its words stand for, and runs no command. -/
theorem wordexp_calm (h : Calm text)
    (htilde : ∀ w ∈ segments isBlank text, expandTilde env (w.map (.char false)) = w.map (.char false)) :
    wordexp env text = some ⟨(segments isBlank text).flatMap (globbed env), []⟩ := by
  have hwords : ((segments isBlank text).map (List.map (Piece.char false))).mapM (expandWord env) =
      some ((segments isBlank text).map fun w => [w.map (Glyph.char false)]) := by
    rw [List.mapM_map]
    exact mapM_eq_some fun w hw => expandWord_plain (mem_segments hw).1 (htilde w hw)
  have hcommands : (text.map plain).filterMap commandOf = [] := by
    rw [List.filterMap_eq_nil_iff]
    intro piece hpiece
    obtain ⟨c, -, rfl⟩ := List.mem_map.mp hpiece
    unfold plain
    split <;> rfl
  have hspecified : .unspecified ∉ text.map plain := by
    intro hmem
    obtain ⟨c, -, hc⟩ := List.mem_map.mp hmem
    unfold plain at hc
    split at hc <;> cases hc
  have hflat : ((segments isBlank text).map fun w => [w.map (Glyph.char false)]).flatten =
      (segments isBlank text).map (List.map (Glyph.char false)) :=
    List.flatMap_pure_eq_map _ _
  rw [wordexp, lex_calm h, Option.bind_some, if_neg hspecified, segments_plain, hwords, hcommands,
    Option.map_some, hflat, List.flatMap_map]
  simp only [fieldOf_plain]
  rfl

/-! ### Literal words -/

/-- As a pathname pattern, the word matches no other path. -/
def Lone (w : List Char) : Prop :=
  ∀ path, matchesPath (pattern 0 (w.map (Prod.mk false))) true path = true → path = w

/-- No expansion changes the word. -/
structure Literal (w : List Char) : Prop where
  nonempty : w ≠ []
  noBlank : ∀ c ∈ w, isBlank c = false
  calm : Calm w
  lone : Lone w

theorem globbed_of_lone (env : Env) (h : Lone w) : globbed env w = [w] := by
  unfold globbed pathnames
  have hall : ∀ path ∈ env.files.filter (matchesPath (pattern 0 (w.map (Prod.mk false))) true),
      path = w := fun path hpath => h path (List.mem_filter.mp hpath).2
  have hnodup := env.nodup_files.filter (matchesPath (pattern 0 (w.map (Prod.mk false))) true)
  generalize env.files.filter (matchesPath (pattern 0 (w.map (Prod.mk false))) true) = found
    at hall hnodup
  cases found with
  | nil => simp [Function.comp_def]
  | cons path found =>
    have hpath := hall path (List.mem_cons_self ..)
    cases found with
    | nil => simp [hpath]
    | cons path' found =>
      have hpath' := hall path' (by simp)
      rw [hpath, hpath'] at hnodup
      simp at hnodup

/-- A word without pattern characters matches itself only. -/
theorem lone_of_plain (h : ∀ c ∈ w, c ≠ '*' ∧ c ≠ '?' ∧ c ≠ '[') : Lone w := by
  have hpattern : pattern 0 (w.map (Prod.mk false)) = w.map .char := by
    induction w with
    | nil => rfl
    | cons c w ih =>
      obtain ⟨hstar, hany, hbracket⟩ := h c (List.mem_cons_self ..)
      rw [List.map_cons, List.map_cons, pattern, if_neg hstar, if_neg hany, if_neg hbracket,
        ih fun d hd => h d (List.mem_cons_of_mem c hd)]
  have hself : ∀ (w path : List Char) (inFront : Bool),
      matchesPath (w.map .char) inFront path = true → path = w := by
    intro w
    induction w with
    | nil =>
      intro path inFront hpath
      simpa [matchesPath] using hpath
    | cons c w ih =>
      intro path inFront hpath
      cases path with
      | nil => cases hpath
      | cons d path =>
        rw [List.map_cons, matchesPath, Bool.and_eq_true, decide_eq_true_eq] at hpath
        rw [hpath.1, ih path _ hpath.2]
  intro path hpath
  rw [hpattern] at hpath
  exact hself w path true hpath

/-- A character that means nothing to the shell. -/
def isOrdinary (c : Char) : Bool :=
  !(isBlank c || isQuoting c || isSyntax c || c ∈ ['$', '*', '?', '['])

theorem isOrdinary_iff {c : Char} : isOrdinary c = true ↔
    isBlank c = false ∧ isQuoting c = false ∧ isSyntax c = false ∧
      c ≠ '$' ∧ c ≠ '*' ∧ c ≠ '?' ∧ c ≠ '[' := by
  simp [isOrdinary, and_assoc]

theorem isOrdinary_digit {c : Char} (hc : c.isDigit = true) : isOrdinary c = true := by
  have hnot : ([' ', '\t', '\\', '\'', '"', '`', '\n', '|', '&', ';', '<', '>', '(', ')', '{', '}', '$',
      '*', '?', '['].all fun d => !d.isDigit) = true := by decide
  cases h : isOrdinary c with
  | true => rfl
  | false =>
    rw [isOrdinary, Bool.not_eq_false'] at h
    have hdigit := List.all_eq_true.mp hnot c
      (by simpa [isBlank, isQuoting, isSyntax, or_assoc] using h)
    rw [hc] at hdigit
    cases hdigit

theorem calm_of_ordinary (h : ∀ c ∈ w, isOrdinary c = true) : Calm w :=
  calm_of_plain fun c hc =>
    have ⟨_, hquoting, hmeta, hdollar, _⟩ := isOrdinary_iff.mp (h c hc)
    ⟨hquoting, hmeta, hdollar⟩

theorem literal_of_ordinary (hw : w ≠ []) (h : ∀ c ∈ w, isOrdinary c = true) : Literal w where
  nonempty := hw
  noBlank c hc := (isOrdinary_iff.mp (h c hc)).1
  calm := calm_of_ordinary h
  lone := lone_of_plain fun c hc => (isOrdinary_iff.mp (h c hc)).2.2.2.2

/-- Words joined by blanks. -/
def joinWords (ws : List (List Char)) : List Char := [' '].intercalate ws

@[simp] theorem joinWords_singleton (w : List Char) : joinWords [w] = w :=
  List.intercalate_singleton

@[simp] theorem joinWords_cons_cons (w w' : List Char) (ws : List (List Char)) :
    joinWords (w :: w' :: ws) = w ++ ' ' :: joinWords (w' :: ws) := by
  unfold joinWords
  rw [List.intercalate_cons_cons, List.append_assoc]
  rfl

theorem calm_joinWords (h : ∀ w ∈ ws, Calm w) : Calm (joinWords ws) := by
  unfold joinWords
  induction ws with
  | nil => exact ⟨by simp, by simp [List.intercalate]⟩
  | cons w ws ih =>
    have hw := h w (List.mem_cons_self ..)
    have hws := ih fun w' hw' => h w' (List.mem_cons_of_mem w hw')
    cases ws with
    | nil => rwa [List.intercalate_singleton]
    | cons w' ws =>
      rw [List.intercalate_cons_cons, List.append_assoc]
      exact calm_blank hw hws

theorem segments_joinWords (hne : ∀ w ∈ ws, w ≠ []) (h : ∀ w ∈ ws, ∀ c ∈ w, isBlank c = false) :
    segments isBlank (joinWords ws) = ws := by
  unfold joinWords
  induction ws with
  | nil => rfl
  | cons w ws ih =>
    have hw := hne w (List.mem_cons_self ..)
    have hblank := h w (List.mem_cons_self ..)
    have hws := ih (fun w' hw' => hne w' (List.mem_cons_of_mem w hw'))
      fun w' hw' => h w' (List.mem_cons_of_mem w hw')
    cases ws with
    | nil => rw [List.intercalate_singleton, segments_of_not_sep hw hblank]
    | cons w' ws =>
      rw [List.intercalate_cons_cons, List.append_assoc, List.singleton_append,
        segments_append hw hblank (by decide), hws]

theorem expandTilde_of_ne (env : Env) (hw : w.head? ≠ some '~') :
    expandTilde env (w.map (.char false)) = w.map (.char false) := by
  unfold expandTilde
  split
  · next h =>
    cases w with
    | nil => cases h
    | cons c w =>
      cases h
      exact absurd rfl hw
  · rfl

/-- A line whose words are literal, and begin with no tilde, expands to its words. -/
theorem wordexp_literal (env : Env) (hcalm : Calm text) (hws : segments isBlank text = ws)
    (htilde : ∀ w ∈ ws, w.head? ≠ some '~') (hlone : ∀ w ∈ ws, Lone w) :
    wordexp env text = some ⟨ws, []⟩ := by
  subst hws
  rw [wordexp_calm hcalm fun w hw => expandTilde_of_ne env (htilde w hw)]
  have hglobbed : (segments isBlank text).flatMap (globbed env) = segments isBlank text := by
    rw [List.flatMap_congr fun w hw => globbed_of_lone env (hlone w hw)]
    simp
  rw [hglobbed]

/-! ### An environment without values -/

/-- Every variable is unset, no command prints anything, what POSIX leaves open is an error, and these
are the files. -/
def Env.bare (files : List (List Char)) (h : files.Nodup) : Env where
  param _ := []
  braced _ := some []
  arith _ := some []
  command _ := []
  home _ := none
  files := files
  nodup_files := h
  unspecified _ := none

variable {files : List (List Char)} {hfiles : files.Nodup}

theorem expandTilde_bare (word : List Piece) : expandTilde (.bare files hfiles) word = word := by
  unfold expandTilde
  split
  · dsimp only [Env.bare]
    split <;> rfl
  · rfl

theorem expandWord_bare {word : List Piece} (hspecified : .unspecified ∉ word) :
    expandWord (.bare files hfiles) word = some (segments (· = .split) (word.flatMap glyphsOf)) := by
  refine expandWord_eq (expandTilde_bare word) fun piece hpiece => ?_
  cases piece with
  | unspecified => exact absurd hpiece hspecified
  | _ => rfl

/-- The characters of a field. -/
def glyphChar : Glyph → Option Char
  | .char _ c => some c
  | .quotes | .split => none

theorem map_snd_fieldOf (glyphs : List Glyph) :
    (fieldOf glyphs).map Prod.snd = glyphs.filterMap glyphChar := by
  rw [fieldOf, List.map_filterMap]
  refine List.filterMap_congr fun glyph _ => ?_
  cases glyph <;> rfl

theorem filterMap_segments (l : List Glyph) :
    (segments (· = .split) l).flatten.filterMap glyphChar = l.filterMap glyphChar := by
  rw [flatten_segments, List.filterMap_filter]
  refine List.filterMap_congr fun glyph _ => ?_
  cases glyph <;> rfl

theorem filterMap_glyphsOf (ps : List Piece) :
    (ps.flatMap glyphsOf).filterMap glyphChar = charsOf ps := by
  induction ps with
  | nil => rfl
  | cons piece ps ih =>
    rw [List.flatMap_cons, List.filterMap_append, ih]
    cases piece <;> rfl

theorem charsOf_segments (ps : List Piece) :
    charsOf (segments (· = .blank) ps).flatten = charsOf ps := by
  rw [flatten_segments, charsOf, List.filterMap_filter]
  refine List.filterMap_congr fun piece _ => ?_
  cases piece <;> rfl

theorem filterMap_words (words : List (List Piece)) :
    (words.map fun word => segments (· = .split) (word.flatMap glyphsOf)).flatten.flatten.filterMap
      glyphChar = charsOf words.flatten := by
  induction words with
  | nil => rfl
  | cons word words ih =>
    rw [List.map_cons, List.flatten_cons, List.flatten_append, List.filterMap_append, ih,
      filterMap_segments, filterMap_glyphsOf, List.flatten_cons, charsOf_append]

/-- Without files and values, the words hold the characters that the line writes by itself. -/
theorem flatten_words_bare {e : Expansion}
    (h : wordexp (.bare [] List.nodup_nil) text = some e) :
    ∃ ps, lex (.text false) text = some ps ∧ e.words.flatten = charsOf ps := by
  obtain ⟨ps, hlex, hrest⟩ := Option.bind_eq_some_iff.mp h
  refine ⟨ps, hlex, ?_⟩
  split at hrest
  · cases hrest
  next hspecified =>
  rw [mapM_eq_some fun word hword => expandWord_bare fun hmem =>
    hspecified ((mem_segments hword).2.2.subset hmem), Option.map_some, Option.some_inj] at hrest
  rw [← hrest]
  show List.flatten (List.flatMap (fun glyphs => [(fieldOf glyphs).map Prod.snd]) _) = _
  simp only [map_snd_fieldOf]
  have hmap : ∀ fields : List (List Glyph),
      (fields.flatMap fun glyphs => [glyphs.filterMap glyphChar]).flatten =
        fields.flatten.filterMap glyphChar := by
    intro fields
    rw [List.filterMap_flatten]
    exact congrArg _ (List.flatMap_pure_eq_map _ fields)
  rw [hmap, filterMap_words, charsOf_segments]

/-- Without files and values, the words hold no other characters than the line. -/
theorem mem_text_of_words {e : Expansion} (h : wordexp (.bare [] List.nodup_nil) text = some e)
    {c : Char} (hc : c ∈ e.words.flatten) : c ∈ text := by
  obtain ⟨ps, hlex, hchars⟩ := flatten_words_bare h
  rw [hchars] at hc
  exact (lex_sublist hlex).subset hc

theorem countP_joinWords (ws : List (List Char)) :
    (joinWords ws).countP isActive = ws.flatten.countP isActive := by
  unfold joinWords
  induction ws with
  | nil => rfl
  | cons w ws ih =>
    cases ws with
    | nil => simp
    | cons w' ws =>
      have hblank : [' '].countP isActive = 0 := by decide
      rw [List.intercalate_cons_cons, List.countP_append, List.countP_append, ih, hblank,
        Nat.add_zero, ← List.countP_append]
      rfl

theorem mem_flatten_of_joinWords {c : Char} (hc : c ∈ joinWords ws) (hblank : c ≠ ' ') :
    c ∈ ws.flatten := by
  unfold joinWords at hc
  induction ws with
  | nil => cases hc
  | cons w ws ih =>
    cases ws with
    | nil => simpa using hc
    | cons w' ws =>
      rw [List.intercalate_cons_cons, List.append_assoc, List.mem_append] at hc
      rcases hc with hc | hc
      · exact List.mem_append_left _ hc
      · exact List.mem_append_right _ (ih (by simpa [hblank] using hc))

theorem infix_joinWords (h : w ∈ ws) : w <:+: joinWords ws := by
  unfold joinWords
  induction ws with
  | nil => cases h
  | cons w' ws ih =>
    cases ws with
    | nil =>
      rw [List.mem_singleton.mp h, List.intercalate_singleton]
    | cons w'' ws =>
      rw [List.intercalate_cons_cons, List.append_assoc]
      rcases List.mem_cons.mp h with rfl | h
      · exact (List.prefix_append _ _).isInfix
      · exact (ih h).trans ((List.suffix_append _ _).trans (List.suffix_append _ _)).isInfix

/-- A line of words joined by blanks, none of which begins with a tilde, expands to these words in
every environment exactly when all of them are literal. -/
theorem wordexp_joinWords_iff (htilde : ∀ w ∈ ws, w.head? ≠ some '~') :
    (∀ env, wordexp env (joinWords ws) = some ⟨ws, []⟩) ↔ ∀ w ∈ ws, Literal w := by
  constructor
  · intro h
    -- Nothing quoted and nothing expanded: the words would lack a character.
    obtain ⟨ps, hlex, hchars⟩ := flatten_words_bare (h (.bare [] List.nodup_nil))
    have hcalm : Calm (joinWords ws) := by
      refine calm_of_lex hlex ?_
      rw [← hchars, countP_joinWords]
    have hwords : ∀ files hfiles, (segments isBlank (joinWords ws)).flatMap
        (globbed (.bare files hfiles)) = ws := by
      intro files hfiles
      have hfound := h (.bare files hfiles)
      rw [wordexp_calm hcalm fun w _ => expandTilde_bare _] at hfound
      exact congrArg Expansion.words (Option.some_inj.mp hfound)
    have hsegments : segments isBlank (joinWords ws) = ws := by
      have hnone := hwords [] List.nodup_nil
      have hself : globbed (.bare [] List.nodup_nil) = fun w => [w] := by
        funext w
        simp [globbed, pathnames, Env.bare, Function.comp_def]
      rw [hself] at hnone
      simpa using hnone
    intro w hw
    obtain ⟨hne, hblank, -⟩ := mem_segments (hsegments.symm ▸ hw)
    refine ⟨hne, hblank, hcalm.of_infix (infix_joinWords hw), fun path hpath => ?_⟩
    -- With this path as the only file, a word that matches it becomes it.
    have hone := hwords [path] (by simp)
    have hself : globbed (.bare [path] (by simp)) = fun w =>
        [if matchesPath (pattern 0 (w.map (Prod.mk false))) true path = true then path else w] := by
      funext w
      by_cases hmatch : matchesPath (pattern 0 (w.map (Prod.mk false))) true path = true
      · simp [globbed, pathnames, Env.bare, hmatch]
      · simp [globbed, pathnames, Env.bare, hmatch, Function.comp_def]
    have hmap : ∀ f : List Char → List Char, (ws.flatMap fun w => [f w]) = ws.map f :=
      fun f => List.flatMap_pure_eq_map f ws
    rw [hsegments, hself, hmap] at hone
    have hfix := List.map_inj_left.mp (hone.trans (List.map_id ws).symm) w hw
    rwa [if_pos hpath] at hfix
  · intro h env
    refine wordexp_literal env (calm_joinWords fun w hw => (h w hw).calm) ?_ htilde
      fun w hw => (h w hw).lone
    exact segments_joinWords (fun w hw => (h w hw).nonempty) fun w hw => (h w hw).noBlank

end Words

end Shell
