import Mathlib.Data.List.Infix
import OJJudge.Shell.WordExp

/-! What the scanner of command lines keeps.  A line that loses none of the characters that begin
quotations and expansions has none that does. -/

namespace Shell

open scoped List

/-! ### What the scanner keeps -/

/-- The character that a piece writes by itself. -/
def charOf : Piece → Option Char
  | .char _ c => some c
  | .param _ _ | .braced _ _ | .arith _ _ | .command _ _ | .quotes | .blank | .unspecified => none

/-- The characters that pieces write by themselves. -/
def charsOf (ps : List Piece) : List Char := ps.filterMap charOf

@[simp] theorem charsOf_append (ps qs : List Piece) : charsOf (ps ++ qs) = charsOf ps ++ charsOf qs :=
  List.filterMap_append

/-- What is pending in a mode and may be written later. -/
def pending : Mode → List Char
  | .dollar _ => ['$']
  | .escape true => ['\\']
  | .escape false | .text _ | .single | .name _ _ | .body _ _ _ _ _ | .backquote _ _ _
  | .unspecified => []

section Scanner

variable {c : Char} {ps : List Piece} {mode mode' : Mode} {text : List Char} {quoted : Bool}

theorem readText_sublist (h : readText quoted c = some (ps, mode)) :
    charsOf ps ++ pending mode <+ [c] := by
  unfold readText at h
  split_ifs at h with h1 h2 h3 h4 h5 h6 h7 h8
  · cases h
    subst h1
    cases quoted with
    | false => exact List.nil_sublist _
    | true => exact List.Sublist.refl _
  · cases h
    exact List.nil_sublist _
  · cases h
    exact List.nil_sublist _
  · cases h
    subst h4
    exact List.Sublist.refl _
  · cases h
    exact List.Sublist.refl _
  · cases h
    exact List.nil_sublist _
  · cases h
    exact List.nil_sublist _
  · cases h
    exact List.Sublist.refl _

theorem unescape_sublist : charsOf (unescape quoted c) <+ pending (.escape quoted) ++ [c] := by
  unfold unescape
  split
  · exact List.nil_sublist _
  · split
    · next h =>
      rw [h.1]
      exact List.Sublist.refl _
    · exact List.sublist_append_right _ _

/-- What a step writes or leaves pending comes from what was pending and the character read. -/
theorem step_sublist (h : step mode c = some (ps, mode')) :
    charsOf ps ++ pending mode' <+ pending mode ++ [c] := by
  cases mode with
  | text quoted => exact readText_sublist h
  | escape quoted =>
    cases h
    simpa [pending] using unescape_sublist
  | single =>
    simp only [step] at h
    split at h
    · cases h
      exact List.nil_sublist _
    · cases h
      exact List.Sublist.refl _
  | dollar quoted =>
    simp only [step] at h
    split_ifs at h
    · cases h
      exact List.nil_sublist _
    · cases h
      exact List.nil_sublist _
    · cases h
      exact List.nil_sublist _
    · obtain ⟨⟨ps', mode''⟩, hread, heq⟩ := Option.map_eq_some_iff.mp h
      cases heq
      exact (readText_sublist hread).cons_cons '$'
    · cases h
      exact List.nil_sublist _
  | name quoted acc =>
    simp only [step] at h
    split at h
    · cases h
      exact List.nil_sublist _
    · obtain ⟨⟨ps', mode''⟩, hread, heq⟩ := Option.map_eq_some_iff.mp h
      cases heq
      have hsub := readText_sublist hread
      exact hsub
  | body opening quoted depth quote acc =>
    have hnothing : charsOf ps ++ pending mode' = [] := by
      cases quote with
      | some quote =>
        cases h
        rfl
      | none =>
        simp only [step] at h
        split_ifs at h
        · split at h
          · cases h
            unfold enclosed
            split_ifs <;> rfl
          · cases h
            rfl
        all_goals
          cases h
          rfl
    rw [hnothing]
    exact List.nil_sublist _
  | backquote quoted escaped acc =>
    have hnothing : charsOf ps ++ pending mode' = [] := by
      cases escaped with
      | true =>
        cases h
        rfl
      | false =>
        simp only [step] at h
        split_ifs at h
        all_goals
          cases h
          rfl
    rw [hnothing]
    exact List.nil_sublist _
  | unspecified =>
    cases h
    exact List.nil_sublist _

/-- The characters that a line writes by itself stand in it, in this order. -/
theorem lex_sublist (h : lex mode text = some ps) :
    charsOf ps <+ pending mode ++ text := by
  induction text generalizing mode ps with
  | nil =>
    unfold lex finish at h
    split at h
    all_goals
      cases h
    · exact List.nil_sublist _
    · exact List.Sublist.refl _
    · exact List.nil_sublist _
    · exact List.nil_sublist _
  | cons c rest ih =>
    obtain ⟨⟨written, mode'⟩, hstep, hrest⟩ := Option.bind_eq_some_iff.mp h
    obtain ⟨later, hlater, rfl⟩ := Option.map_eq_some_iff.mp hrest
    rw [charsOf_append]
    calc charsOf written ++ charsOf later
      _ <+ charsOf written ++ (pending mode' ++ rest) := (ih hlater).append_left _
      _ = (charsOf written ++ pending mode') ++ rest := (List.append_assoc ..).symm
      _ <+ (pending mode ++ [c]) ++ rest := (step_sublist hstep).append_right _
      _ = pending mode ++ c :: rest := by simp

end Scanner

/-! ### Calm lines -/

/-- No quotation and no shell syntax begins in the text, and its dollar signs are literal. -/
structure Calm (text : List Char) : Prop where
  chars : ∀ c ∈ text, isQuoting c = false ∧ isSyntax c = false
  dollars : ∀ c, ['$', c] <:+: text → keepsDollar c = true

section Calm

variable {text rest w : List Char} {c : Char} {ps : List Piece} {quoted : Bool}

theorem Calm.of_infix (h : Calm text) (hw : w <:+: text) : Calm w :=
  ⟨fun c hc => h.chars c (hw.subset hc), fun c hc => h.dollars c (hc.trans hw)⟩

theorem Calm.tail (h : Calm (c :: rest)) : Calm rest :=
  h.of_infix (List.suffix_cons c rest).isInfix

theorem calm_cons (hc : isQuoting c = false ∧ isSyntax c = false) (hrest : Calm rest)
    (hdollar : c = '$' → ∀ d, rest.head? = some d → keepsDollar d = true) :
    Calm (c :: rest) := by
  constructor
  · intro d hd
    rcases List.mem_cons.mp hd with rfl | hd
    · exact hc
    · exact hrest.chars d hd
  · intro d hd
    rcases List.infix_cons_iff.mp hd with hfirst | hlater
    · obtain ⟨rfl, htail⟩ := List.cons_prefix_cons.mp hfirst
      refine hdollar rfl d ?_
      cases rest with
      | nil => simp at htail
      | cons e rest =>
        rw [List.cons_prefix_cons] at htail
        rw [htail.1]
        rfl
    · exact hrest.dollars d hlater

/-- Two calm texts together are calm when a dollar sign between them is literal. -/
theorem calm_append {a b : List Char} (ha : Calm a) (hb : Calm b)
    (hdollar : a.getLast? = some '$' → ∀ d, b.head? = some d → keepsDollar d = true) :
    Calm (a ++ b) := by
  induction a with
  | nil => exact hb
  | cons c a ih =>
    have hrest : Calm (a ++ b) := by
      refine ih ha.tail fun hlast => hdollar ?_
      rw [List.getLast?_cons, hlast]
      rfl
    refine calm_cons (ha.chars c (List.mem_cons_self ..)) hrest fun hc d hd => ?_
    subst hc
    cases a with
    | nil => exact hdollar rfl d hd
    | cons e a =>
      obtain rfl : e = d := by simpa using hd
      exact ha.dollars e (List.prefix_append ['$', e] a).isInfix

theorem calm_blank {a b : List Char} (ha : Calm a) (hb : Calm b) : Calm (a ++ ' ' :: b) := by
  refine calm_append ha (calm_cons (by decide) hb fun h => absurd h (by decide)) ?_
  rintro - d hd
  cases hd
  decide

/-- A text without dollar signs. -/
theorem calm_of_plain (h : ∀ c ∈ w, isQuoting c = false ∧ isSyntax c = false ∧ c ≠ '$') : Calm w := by
  refine ⟨fun c hc => ⟨(h c hc).1, (h c hc).2.1⟩, fun c hc => ?_⟩
  exact absurd rfl (h '$' (hc.subset (by simp))).2.2

/-- A character of a calm line. -/
def plain (c : Char) : Piece := if isBlank c then .blank else .char false c

theorem readText_plain (hquoting : isQuoting c = false) (hmeta : isSyntax c = false)
    (hdollar : c ≠ '$') : readText false c = some ([plain c], .text false) := by
  simp only [isQuoting, List.mem_cons, List.not_mem_nil, or_false, decide_eq_false_iff_not,
    not_or] at hquoting
  unfold readText plain
  simp only [hquoting, hdollar, hmeta, if_false, Bool.false_eq_true]
  split <;> rfl

theorem eq_of_keepsDollar (h : keepsDollar c = true) : c = ' ' ∨ c = '\t' ∨ c = '\n' := by
  simpa [keepsDollar, isBlank, or_assoc] using h

/-- A dollar sign in front of white space is literal. -/
theorem lex_dollar (h : keepsDollar c = true) (rest : List Char) :
    lex (.dollar quoted) (c :: rest) =
      (lex (.text quoted) (c :: rest)).map (.char quoted '$' :: ·) := by
  have hstep : step (.dollar quoted) c =
      (readText quoted c).map fun r => (.char quoted '$' :: r.1, r.2) := by
    rcases eq_of_keepsDollar h with rfl | rfl | rfl <;> rfl
  rw [lex, hstep, lex, step]
  cases readText quoted c with
  | none => rfl
  | some r =>
    simp only [Option.map_some, Option.bind_some]
    cases lex r.2 rest <;> rfl

/-- Any other dollar sign is lost. -/
theorem lex_expansion (h : keepsDollar c = false)
    (hlex : lex (.dollar quoted) (c :: rest) = some ps) : charsOf ps <+ rest := by
  obtain ⟨⟨written, mode'⟩, hstep, hrest⟩ := Option.bind_eq_some_iff.mp hlex
  obtain ⟨later, hlater, rfl⟩ := Option.map_eq_some_iff.mp hrest
  have hnothing : charsOf written = [] ∧ pending mode' = [] := by
    simp only [step, h, Bool.false_eq_true, if_false] at hstep
    split_ifs at hstep
    all_goals
      cases hstep
      exact ⟨rfl, rfl⟩
  have hsub := lex_sublist hlater
  rw [hnothing.2] at hsub
  rw [charsOf_append, hnothing.1]
  exact hsub

theorem lex_calm (h : Calm text) : lex (.text false) text = some (text.map plain) := by
  induction text with
  | nil => rfl
  | cons c rest ih =>
    obtain ⟨hquoting, hmeta⟩ := h.chars c (List.mem_cons_self ..)
    have hrest := ih h.tail
    by_cases hdollar : c = '$'
    · subst hdollar
      show (lex (.dollar false) rest).map _ = _
      cases rest with
      | nil => rfl
      | cons d rest =>
        have hd := h.dollars d (List.prefix_append ['$', d] rest).isInfix
        rw [lex_dollar hd, hrest]
        rfl
    · simp only [lex, step, readText_plain hquoting hmeta hdollar, Option.bind_some, hrest]
      rfl

/-- The characters that begin quotations and expansions. -/
def isActive (c : Char) : Bool := isQuoting c || c == '$'

theorem readText_quoting {mode : Mode} (hc : isQuoting c = true)
    (h : readText false c = some (ps, mode)) : charsOf ps = [] ∧ pending mode = [] := by
  simp only [isQuoting, List.mem_cons, List.not_mem_nil, or_false, decide_eq_true_eq] at hc
  rcases hc with rfl | rfl | rfl | rfl
  all_goals
    cases h
    exact ⟨rfl, rfl⟩

theorem readText_not_syntax {r : List Piece × Mode} (h : readText false c = some r) :
    isSyntax c = false := by
  by_contra hc
  simp only [isSyntax, List.mem_cons, List.not_mem_nil, or_false, decide_eq_true_eq,
    Bool.not_eq_false] at hc
  rcases hc with rfl | rfl | rfl | rfl | rfl | rfl | rfl | rfl | rfl | rfl
  all_goals cases h

/-- A line that writes all its active characters is calm. -/
theorem calm_of_lex (h : lex (.text false) text = some ps)
    (hkept : text.countP isActive ≤ (charsOf ps).countP isActive) : Calm text := by
  induction text generalizing ps with
  | nil => exact ⟨by simp, by simp⟩
  | cons c rest ih =>
    obtain ⟨⟨written, mode⟩, hstep, hrest⟩ := Option.bind_eq_some_iff.mp h
    obtain ⟨later, hlater, rfl⟩ := Option.map_eq_some_iff.mp hrest
    rw [charsOf_append, List.countP_append, List.countP_cons] at hkept
    by_cases hquoting : isQuoting c = true
    · -- The quoting character is not written.
      obtain ⟨hnothing, hpending⟩ := readText_quoting hquoting hstep
      have hcount := (lex_sublist hlater).countP_le (p := isActive)
      rw [hpending, List.nil_append] at hcount
      rw [hnothing, List.countP_nil, if_pos (by simp [isActive, hquoting])] at hkept
      omega
    rw [Bool.not_eq_true] at hquoting
    by_cases hdollar : c = '$'
    · subst hdollar
      cases hstep
      rw [if_pos (by decide)] at hkept
      cases rest with
      | nil => exact calm_cons (by decide) ⟨by simp, by simp⟩ (by simp)
      | cons d rest =>
        cases hd : keepsDollar d with
        | false =>
          have hcount := (lex_expansion hd hlater).countP_le (p := isActive)
          rw [List.countP_cons] at hkept
          simp only [charsOf, List.filterMap_nil, List.countP_nil] at hkept hcount
          omega
        | true =>
          rw [lex_dollar hd] at hlater
          obtain ⟨kept, hkeptLex, rfl⟩ := Option.map_eq_some_iff.mp hlater
          refine calm_cons (by decide) (ih hkeptLex ?_) fun _ e he => ?_
          · have hone : (charsOf (.char false '$' :: kept)).countP isActive =
                (charsOf kept).countP isActive + 1 := List.countP_cons_of_pos (by decide)
            simp only [charsOf, List.filterMap_nil, List.countP_nil] at hkept hone ⊢
            omega
          · cases he
            exact hd
    · have hmeta := readText_not_syntax hstep
      simp only [step, readText_plain hquoting hmeta hdollar, Option.some_inj] at hstep
      cases hstep
      refine calm_cons ⟨hquoting, hmeta⟩ (ih hlater ?_) fun h => absurd h hdollar
      have hinactive : isActive c = false := by simp [isActive, hquoting, hdollar]
      have hone : (charsOf [plain c]).countP isActive = 0 := by
        unfold plain
        split
        · rfl
        · exact List.countP_singleton ▸ if_neg (by simp [hinactive])
      rw [hone, if_neg (by simp [hinactive])] at hkept
      omega

end Calm

end Shell
