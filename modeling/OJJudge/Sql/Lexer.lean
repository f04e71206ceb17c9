import Mathlib.Data.List.Infix

/-! The lexical rules of MySQL for statements whose values stand in quoted literals.  `template_iff`
says when a statement with inserted values keeps the tokens of its template: exactly when every value
is `Plain`. -/

namespace Sql

inductive Token
  | word (w : List Char)
  | symbol (c : Char)
  | str (value : List Char)
  deriving DecidableEq

/-- The value of the escape sequence of a character after a backslash. -/
def unescape (c : Char) : List Char :=
  if c = '0' then [Char.ofNat 0]
  else if c = 'b' then [Char.ofNat 8]
  else if c = 'n' then ['\n']
  else if c = 'r' then ['\r']
  else if c = 't' then ['\t']
  else if c = 'Z' then [Char.ofNat 26]
  else if c = '%' ∨ c = '_' then ['\\', c]
  else [c]

/-- The value of a literal after its opening quote `q`, and the text after its closing quote.  A
doubled quote is one quote. -/
def scan (q : Char) : List Char → Option (List Char × List Char)
  | [] => none
  | c :: cs =>
    if c = q then
      match cs with
      | [] => some ([], [])
      | d :: rest =>
        if d = q then (scan q rest).map fun r => (q :: r.1, r.2) else some ([], d :: rest)
    else if c = '\\' then
      match cs with
      | [] => none
      | d :: rest => (scan q rest).map fun r => (unescape d ++ r.1, r.2)
    else (scan q cs).map fun r => (c :: r.1, r.2)

def isSpace (c : Char) : Bool := c == ' ' || (9 ≤ c.toNat && c.toNat ≤ 13)

def isWordChar (c : Char) : Bool :=
  c.isAlphanum || c == '_' || c == '$' || 128 ≤ c.toNat

def isQuote (c : Char) : Bool := c == '"' || c == '\''

/-- The text after a block comment. -/
def afterBlock : List Char → List Char
  | [] => []
  | '*' :: '/' :: rest => rest
  | _ :: cs => afterBlock cs

/-- The text after a comment, when one begins here. -/
def skipComment : List Char → Option (List Char)
  | '#' :: cs => some (cs.dropWhile (· ≠ '\n'))
  | '-' :: '-' :: c :: cs => if isSpace c then some ((c :: cs).dropWhile (· ≠ '\n')) else none
  | '/' :: '*' :: cs => some (afterBlock cs)
  | _ => none

/-- The tokens of a text; `none` when a literal does not end. -/
def lex : Nat → List Char → Option (List Token)
  | _, [] => some []
  | 0, _ :: _ => none
  | fuel + 1, c :: cs =>
    if isSpace c then lex fuel cs
    else if isQuote c then
      (scan c cs).bind fun r => (lex fuel r.2).map (.str r.1 :: ·)
    else if isWordChar c then
      (lex fuel (cs.dropWhile isWordChar)).map (.word (c :: cs.takeWhile isWordChar) :: ·)
    else
      match skipComment (c :: cs) with
      | some rest => lex fuel rest
      | none => (lex fuel cs).map (.symbol c :: ·)

/-- The tokens of a whole text. -/
def tokens (s : List Char) : Option (List Token) := lex s.length s

/-- A text that stands for itself in a literal: it has no quote `q`, and every backslash in it is
followed by `%` or `_`. -/
def Plain (q : Char) : List Char → Bool
  | [] => true
  | c :: cs =>
    if c = q then false
    else if c = '\\' then
      match cs with
      | [] => false
      | d :: rest => (d = '%' || d = '_') && Plain q rest
    else Plain q cs

/-! ### Literals -/

theorem length_unescape_le (c : Char) : (unescape c).length ≤ 2 := by
  unfold unescape
  repeat' split
  all_goals simp

theorem unescape_of_length {c : Char} (h : (unescape c).length = 2) :
    unescape c = ['\\', c] ∧ (c = '%' ∨ c = '_') := by
  unfold unescape at h ⊢
  split_ifs at h ⊢ with _ _ _ _ _ _ hc
  all_goals first | exact ⟨rfl, hc⟩ | simp at h

/-- A literal takes one character of the text for each one of its value, or more; it takes no more
only when its value is the text itself. -/
theorem scan_eq_some {q : Char} {s : List Char} {r : List Char × List Char}
    (h : scan q s = some r) : ∃ c, s = c ++ q :: r.2 ∧ r.1.length ≤ c.length ∧
      (r.1.length = c.length → r.1 = c ∧ Plain q c = true) := by
  fun_induction scan q s generalizing r with
  | case1 => cases h
  | case2 =>
    cases h
    exact ⟨[], rfl, le_rfl, fun _ => ⟨rfl, rfl⟩⟩
  | case3 rest ih =>
    obtain ⟨r', hr', rfl⟩ := Option.map_eq_some_iff.mp h
    obtain ⟨c, rfl, hlen, -⟩ := ih hr'
    refine ⟨q :: q :: c, rfl, ?_, fun heq => ?_⟩
    · simp only [List.length_cons]
      omega
    · simp only [List.length_cons] at heq
      omega
  | case4 d rest hd =>
    cases h
    exact ⟨[], rfl, le_rfl, fun _ => ⟨rfl, rfl⟩⟩
  | case5 => cases h
  | case6 d rest hq ih =>
    obtain ⟨r', hr', rfl⟩ := Option.map_eq_some_iff.mp h
    obtain ⟨c, rfl, hlen, hplain⟩ := ih hr'
    have htwo := length_unescape_le d
    refine ⟨'\\' :: d :: c, rfl, ?_, fun heq => ?_⟩
    · simp only [List.length_append, List.length_cons]
      omega
    · simp only [List.length_append, List.length_cons] at heq
      obtain ⟨hescape, hd⟩ := unescape_of_length (c := d) (by omega)
      obtain ⟨rfl, hc⟩ := hplain (by omega)
      refine ⟨by rw [hescape]; rfl, ?_⟩
      simpa [Plain, hq, hc] using hd
  | case7 c cs hq hback ih =>
    obtain ⟨r', hr', rfl⟩ := Option.map_eq_some_iff.mp h
    obtain ⟨c', rfl, hlen, hplain⟩ := ih hr'
    refine ⟨c :: c', rfl, ?_, fun heq => ?_⟩
    · simp only [List.length_cons]
      omega
    · obtain ⟨rfl, hc⟩ := hplain (Nat.succ_inj.mp heq)
      refine ⟨rfl, ?_⟩
      rw [Plain.eq_def]
      simpa only [hq, hback, if_false] using hc

/-- A plain text stands for itself. -/
theorem scan_plain {q : Char} {v rest : List Char} (hv : Plain q v = true)
    (hrest : rest.head? ≠ some q) : scan q (v ++ q :: rest) = some (v, rest) := by
  fun_induction Plain q v with
  | case1 =>
    cases rest with
    | nil => simp [scan]
    | cons d rest =>
      have hd : d ≠ q := fun h => hrest (by simp [h])
      simp [scan, hd]
  | case2 => cases hv
  | case3 => cases hv
  | case4 d v hne ih =>
    simp only [Bool.and_eq_true, Bool.or_eq_true, decide_eq_true_eq] at hv
    have hescape : unescape d = ['\\', d] := by
      obtain ⟨rfl | rfl, -⟩ := hv <;> rfl
    rw [List.cons_append, List.cons_append, scan]
    simp only [hne, if_false, if_true, ih hv.2, hescape]
    rfl
  | case5 c v hne hback ih =>
    rw [List.cons_append, scan.eq_def]
    simp only [hne, hback, if_false, ih hv]
    rfl

/-! ### Texts around the literals -/

theorem afterBlock_suffix (s : List Char) : afterBlock s <:+ s := by
  fun_induction afterBlock s with
  | case1 => exact List.suffix_refl _
  | case2 rest => exact ⟨['*', '/'], rfl⟩
  | case3 c cs _ ih => exact ih.trans (List.suffix_cons c cs)

theorem skipComment_suffix {c : Char} {cs rest : List Char} (h : skipComment (c :: cs) = some rest) :
    rest <:+ cs := by
  unfold skipComment at h
  split at h
  · next heq =>
    cases heq
    cases h
    exact List.dropWhile_suffix _
  · next d ds heq =>
    cases heq
    split at h
    · cases h
      exact (List.dropWhile_suffix _).trans (List.suffix_cons _ _)
    · cases h
  · next heq =>
    cases heq
    cases h
    exact (afterBlock_suffix _).trans (List.suffix_cons _ _)
  · cases h

theorem scan_suffix {q : Char} {s : List Char} {r : List Char × List Char}
    (h : scan q s = some r) : q :: r.2 <:+ s := by
  obtain ⟨c, hc, -⟩ := scan_eq_some h
  exact ⟨c, hc.symm⟩

/-- After its first character, a text is read on at one of its ends. -/
theorem lex_cons {n : Nat} {c : Char} {cs : List Char} {f : List Char → Option (List Token)}
    (h : ∀ rest, rest <:+ cs → lex n rest = f rest) :
    lex (n + 1) (c :: cs) =
      if isSpace c then f cs
      else if isQuote c then (scan c cs).bind fun r => (f r.2).map (.str r.1 :: ·)
      else if isWordChar c then
        (f (cs.dropWhile isWordChar)).map (.word (c :: cs.takeWhile isWordChar) :: ·)
      else
        match skipComment (c :: cs) with
        | some rest => f rest
        | none => (f cs).map (.symbol c :: ·) := by
  rw [lex]
  split
  · exact h _ (List.suffix_refl cs)
  · split
    · refine Option.bind_congr fun r hr => ?_
      rw [h r.2 ((List.suffix_cons _ _).trans (scan_suffix hr))]
    · split
      · rw [h _ (List.dropWhile_suffix _)]
      · split
        · next hskip => exact h _ (skipComment_suffix hskip)
        · rw [h _ (List.suffix_refl cs)]

/-- Fuel for every character is enough. -/
theorem lex_fuel {n m : Nat} {s : List Char} (hn : s.length ≤ n) (hm : s.length ≤ m) :
    lex n s = lex m s := by
  induction n generalizing m s with
  | zero =>
    obtain rfl : s = [] := List.length_eq_zero_iff.mp (by omega)
    cases m <;> rfl
  | succ n ih =>
    cases s with
    | nil => cases m <;> rfl
    | cons c cs =>
      obtain ⟨m, rfl⟩ : ∃ k, m = k + 1 := Nat.exists_eq_succ_of_ne_zero (by simp at hm; omega)
      rw [List.length_cons] at hn hm
      have hsuffix : ∀ rest, rest <:+ cs → lex n rest = lex m rest := fun rest h =>
        ih (by have := h.length_le; omega) (by have := h.length_le; omega)
      rw [lex_cons hsuffix, lex]

theorem tokens_cons (c : Char) (cs : List Char) :
    tokens (c :: cs) =
      if isSpace c then tokens cs
      else if isQuote c then (scan c cs).bind fun r => (tokens r.2).map (.str r.1 :: ·)
      else if isWordChar c then
        (tokens (cs.dropWhile isWordChar)).map (.word (c :: cs.takeWhile isWordChar) :: ·)
      else
        match skipComment (c :: cs) with
        | some rest => tokens rest
        | none => (tokens cs).map (.symbol c :: ·) :=
  lex_cons fun _ h => lex_fuel h.length_le le_rfl

/-- A character that stands between literals: white space, a word character, or a symbol that begins
no comment and no literal. -/
def isGap (c : Char) : Bool :=
  isSpace c || isWordChar c || c ∈ ['(', ')', ',', ';', '=', '<', '>']

theorem eq_of_isQuote {c : Char} (h : isQuote c = true) : c = '"' ∨ c = '\'' := by
  simpa [isQuote] using h

theorem isGap_not_quote {c : Char} (h : isGap c = true) : isQuote c = false := by
  rw [Bool.eq_false_iff]
  intro hq
  obtain rfl | rfl := eq_of_isQuote hq <;> exact absurd h (by decide)

theorem isWordChar_not_quote {c : Char} (h : isQuote c = true) : isWordChar c = false := by
  obtain rfl | rfl := eq_of_isQuote h <;> decide

/-- A run of a class of characters ends at a character outside the class. -/
theorem span_append {p : Char → Bool} (a : List Char) {s : List Char}
    (hs : ∀ c ∈ s.head?, p c = false) :
    (a ++ s).dropWhile p = a.dropWhile p ++ s ∧ (a ++ s).takeWhile p = a.takeWhile p := by
  induction a with
  | nil =>
    cases s with
    | nil => simp
    | cons c s => simp [hs c rfl]
  | cons c a ih =>
    by_cases hc : p c = true
    · simp [hc, ih]
    · simp [hc]

/-- The tokens of a text between literals. -/
def gapTokens (p : List Char) : List Token := (tokens p).getD []

theorem exists_gap_tokens (p : List Char) (hp : ∀ c ∈ p, isGap c = true) :
    ∃ ts, (∀ v, .str v ∉ ts) ∧ ∀ s : List Char, (∀ c ∈ s.head?, isQuote c = true) →
      tokens (p ++ s) = (tokens s).map (ts ++ ·) := by
  induction hn : p.length using Nat.strongRecOn generalizing p with
  | ind n ih =>
    cases p with
    | nil => exact ⟨[], by simp, fun s _ => by simp⟩
    | cons c cs =>
      rw [List.length_cons] at hn
      have hc := hp c (List.mem_cons_self ..)
      have hcs : ∀ d ∈ cs, isGap d = true := fun d hd => hp d (List.mem_cons_of_mem c hd)
      by_cases hspace : isSpace c = true
      · obtain ⟨ts, hts, h⟩ := ih cs.length (by omega) cs hcs rfl
        refine ⟨ts, hts, fun s hs => ?_⟩
        rw [List.cons_append, tokens_cons, if_pos hspace, h s hs]
      by_cases hword : isWordChar c = true
      · have hlen := (List.dropWhile_suffix (l := cs) isWordChar).length_le
        obtain ⟨ts, hts, h⟩ := ih (cs.dropWhile isWordChar).length (by omega) _
          (fun d hd => hcs d ((List.dropWhile_suffix _).subset hd)) rfl
        refine ⟨.word (c :: cs.takeWhile isWordChar) :: ts, fun v => by simp [hts v], fun s hs => ?_⟩
        obtain ⟨hdrop, htake⟩ := span_append (p := isWordChar) cs (s := s) fun d hd =>
          isWordChar_not_quote (hs d hd)
        rw [List.cons_append, tokens_cons, if_neg hspace, isGap_not_quote hc,
          if_neg Bool.false_ne_true, if_pos hword, hdrop, htake, h s hs, Option.map_map]
        rfl
      · obtain ⟨ts, hts, h⟩ := ih cs.length (by omega) cs hcs rfl
        refine ⟨.symbol c :: ts, fun v => by simp [hts v], fun s hs => ?_⟩
        have hskip : skipComment (c :: (cs ++ s)) = none := by
          have hsymbol : c ∈ ['(', ')', ',', ';', '=', '<', '>'] := by
            simpa [isGap, hspace, hword] using hc
          simp only [List.mem_cons, List.not_mem_nil, or_false] at hsymbol
          obtain rfl | rfl | rfl | rfl | rfl | rfl | rfl := hsymbol <;> rfl
        rw [List.cons_append, tokens_cons, if_neg hspace, isGap_not_quote hc,
          if_neg Bool.false_ne_true, if_neg hword, hskip]
        simp only [h s hs, Option.map_map]
        rfl

theorem gapTokens_spec {p : List Char} (hp : ∀ c ∈ p, isGap c = true) :
    (∀ v, .str v ∉ gapTokens p) ∧ ∀ s : List Char, (∀ c ∈ s.head?, isQuote c = true) →
      tokens (p ++ s) = (tokens s).map (gapTokens p ++ ·) := by
  obtain ⟨ts, hts, h⟩ := exists_gap_tokens p hp
  have hp' : tokens p = some (ts ++ []) := by
    simpa [tokens, lex] using h [] (by simp)
  rw [gapTokens, hp', Option.getD_some, List.append_nil]
  exact ⟨hts, h⟩

theorem tokens_gap {p : List Char} (hp : ∀ c ∈ p, isGap c = true) {s : List Char}
    (hs : ∀ c ∈ s.head?, isQuote c = true) :
    tokens (p ++ s) = (tokens s).map (gapTokens p ++ ·) :=
  (gapTokens_spec hp).2 s hs

theorem str_notMem_gapTokens {p : List Char} (hp : ∀ c ∈ p, isGap c = true) (v : List Char) :
    .str v ∉ gapTokens p :=
  (gapTokens_spec hp).1 v

/-! ### Templates -/

/-- A literal with each value, followed by a text. -/
def literals : List (List Char × List Char) → List Char
  | [] => []
  | (v, p) :: rest => '"' :: (v ++ '"' :: (p ++ literals rest))

theorem head_literals (pieces : List (List Char × List Char)) :
    ∀ c ∈ (literals pieces).head?, isQuote c = true := by
  cases pieces with
  | nil => simp [literals]
  | cons piece pieces =>
    intro c hc
    cases hc
    rfl

/-- The tokens that the template has in the places of `literals`. -/
def literalTokens : List (List Char × List Char) → List Token
  | [] => []
  | (v, p) :: rest => .str v :: (gapTokens p ++ literalTokens rest)

/-- A literal in the tokens of a text begins somewhere in the text. -/
theorem exists_literal {s : List Char} {ts ts' : List Token} {v : List Char}
    (h : tokens s = some (ts ++ .str v :: ts')) (hts : ∀ v, .str v ∉ ts) :
    ∃ q w rest, isQuote q = true ∧ q :: w <:+ s ∧ scan q w = some (v, rest) ∧
      tokens rest = some ts' := by
  induction hn : s.length using Nat.strongRecOn generalizing s ts with
  | ind n ih =>
    cases s with
    | nil =>
      have hnil := congrArg (Option.map List.length) h
      simp [tokens, lex] at hnil
    | cons c cs =>
      rw [List.length_cons] at hn
      have hgo : ∀ {s' : List Char} {ts₁ : List Token}, s' <:+ cs →
          tokens s' = some (ts₁ ++ .str v :: ts') → (∀ v, .str v ∉ ts₁) →
          ∃ q w rest, isQuote q = true ∧ q :: w <:+ c :: cs ∧ scan q w = some (v, rest) ∧
            tokens rest = some ts' := by
        intro s' ts₁ hs' h' hts₁
        have hlen := hs'.length_le
        obtain ⟨q, w, rest, hq, hw, hscan, hrest⟩ := ih s'.length (by omega) h' hts₁ rfl
        exact ⟨q, w, rest, hq, (hw.trans hs').trans (List.suffix_cons c cs), hscan, hrest⟩
      rw [tokens_cons] at h
      split at h
      · exact hgo (List.suffix_refl cs) h hts
      · split at h
        · next hquote =>
          obtain ⟨r, hr, hmap⟩ := Option.bind_eq_some_iff.mp h
          obtain ⟨ts₁, hts₁, heq⟩ := Option.map_eq_some_iff.mp hmap
          cases ts with
          | nil =>
            cases heq
            exact ⟨c, cs, r.2, hquote, List.suffix_refl _, hr, hts₁⟩
          | cons t ts =>
            cases heq
            exact absurd (List.mem_cons_self ..) (hts r.1)
        · have htail : ∀ {s' : List Char} {t : Token}, s' <:+ cs → (∀ v, t ≠ .str v) →
              (tokens s').map (t :: ·) = some (ts ++ .str v :: ts') →
              ∃ q w rest, isQuote q = true ∧ q :: w <:+ c :: cs ∧ scan q w = some (v, rest) ∧
                tokens rest = some ts' := by
            intro s' t hs' ht hmap
            obtain ⟨ts₁, hts₁, heq⟩ := Option.map_eq_some_iff.mp hmap
            cases ts with
            | nil => exact absurd (List.cons.inj heq).1 (ht v)
            | cons t' ts =>
              obtain ⟨-, rfl⟩ := List.cons.inj heq
              exact hgo hs' hts₁ fun v hv => hts v (List.mem_cons_of_mem t' hv)
          split at h
          · exact htail (List.dropWhile_suffix _) (by simp) h
          · split at h
            · next hskip => exact hgo (skipComment_suffix hskip) h hts
            · exact htail (List.suffix_refl cs) (by simp) h

/-- A text between two literals, or after the last one. -/
def IsGapText (p : List Char) : Prop := p ≠ [] ∧ ∀ c ∈ p, isGap c = true

/-- A literal that takes more of the text than its place in the template leaves too little text for
the literals after it. -/
theorem overrun {pieces : List (List Char × List Char)} {p rest : List Char} {q : Char}
    (hp : IsGapText p) (hpieces : ∀ piece ∈ pieces, IsGapText piece.2) (hq : isQuote q = true)
    (hsuffix : q :: rest <:+ p ++ literals pieces)
    (h : tokens rest = some (gapTokens p ++ literalTokens pieces)) : False := by
  induction pieces generalizing p q rest with
  | nil =>
    rw [literals, List.append_nil] at hsuffix
    have hgap := hp.2 q (hsuffix.subset (List.mem_cons_self ..))
    rw [isGap_not_quote hgap] at hq
    exact Bool.false_ne_true hq
  | cons piece pieces ih =>
    obtain ⟨v, p'⟩ := piece
    have hinside : q :: rest <:+ literals ((v, p') :: pieces) := by
      obtain ⟨a, ha⟩ := hsuffix
      obtain ⟨b, rfl, hb⟩ | ⟨b, -, hb⟩ := List.append_eq_append_iff.mp ha
      · cases b with
        | nil => exact ⟨[], hb⟩
        | cons d b =>
          obtain ⟨rfl, -⟩ := List.cons.inj hb
          have hgap := hp.2 q (by simp)
          rw [isGap_not_quote hgap] at hq
          exact absurd hq Bool.false_ne_true
      · exact ⟨b, hb.symm⟩
    have hrest : rest <:+ v ++ '"' :: (p' ++ literals pieces) := by
      obtain heq | hlt := List.suffix_cons_iff.mp hinside
      · exact (List.cons.inj heq).2 ▸ List.suffix_refl _
      · exact (List.suffix_cons q rest).trans hlt
    obtain ⟨q', w, rest', hq', hw, hscan, hrest'⟩ :=
      exists_literal h (str_notMem_gapTokens hp.2)
    obtain ⟨c, rfl, hlen, -⟩ := scan_eq_some hscan
    have hwhole := hw.trans hrest
    refine ih (hpieces _ (List.mem_cons_self ..))
      (fun piece hmem => hpieces piece (List.mem_cons_of_mem _ hmem)) hq' ?_ hrest'
    have hliteral := ((List.suffix_append c _).trans (List.suffix_cons _ _)).trans hwhole
    have hnext : p' ++ literals pieces <:+ v ++ '"' :: (p' ++ literals pieces) :=
      (List.suffix_cons _ _).trans (List.suffix_append v _)
    refine List.suffix_of_suffix_length_le hliteral hnext ?_
    have hle := hwhole.length_le
    simp only [List.length_cons, List.length_append] at hle hlen ⊢
    omega

theorem literals_iff {pieces : List (List Char × List Char)}
    (hpieces : ∀ piece ∈ pieces, IsGapText piece.2) :
    tokens (literals pieces) = some (literalTokens pieces) ↔
      ∀ piece ∈ pieces, Plain '"' piece.1 = true := by
  induction pieces with
  | nil => simp [literals, literalTokens, tokens, lex]
  | cons piece pieces ih =>
    obtain ⟨v, p⟩ := piece
    have hp := hpieces _ (List.mem_cons_self ..)
    have htail := ih fun piece hmem => hpieces piece (List.mem_cons_of_mem _ hmem)
    have hgap := tokens_gap hp.2 (head_literals pieces)
    have hhead : (p ++ literals pieces).head? ≠ some '"' := by
      obtain ⟨d, ds, rfl⟩ := List.exists_cons_of_ne_nil hp.1
      intro hd
      obtain rfl : d = '"' := by simpa using hd
      exact absurd (hp.2 _ (List.mem_cons_self ..)) (by decide)
    have hstart : tokens (literals ((v, p) :: pieces)) =
        (scan '"' (v ++ '"' :: (p ++ literals pieces))).bind fun r =>
          (tokens r.2).map (.str r.1 :: ·) := by
      rw [literals, tokens_cons]
      rfl
    rw [hstart, List.forall_mem_cons, ← htail]
    constructor
    · intro h
      obtain ⟨r, hr, hmap⟩ := Option.bind_eq_some_iff.mp h
      obtain ⟨ts, hts, heq⟩ := Option.map_eq_some_iff.mp hmap
      obtain ⟨hstr, rfl⟩ := List.cons.inj heq
      obtain rfl : r.1 = v := Token.str.inj hstr
      obtain ⟨c, hc, hlen, hplain⟩ := scan_eq_some hr
      by_cases hsame : r.1.length = c.length
      · obtain ⟨hc', hplain⟩ := hplain hsame
        rw [← hc'] at hc hplain
        obtain ⟨-, hafter⟩ := List.cons.inj (List.append_cancel_left hc)
        refine ⟨hplain, ?_⟩
        rw [← hafter, hgap] at hts
        obtain ⟨ts, hts, heq⟩ := Option.map_eq_some_iff.mp hts
        rw [hts, List.append_cancel_left heq]
      · refine (overrun hp (fun piece hmem => hpieces piece (List.mem_cons_of_mem _ hmem))
          (q := '"') rfl ?_ hts).elim
        have hafter : p ++ literals pieces <:+ c ++ '"' :: r.2 := by
          rw [← hc]
          exact (List.suffix_cons _ _).trans (List.suffix_append _ _)
        refine List.suffix_of_suffix_length_le (List.suffix_append c _) hafter ?_
        have htotal := congrArg List.length hc
        simp only [List.length_cons, List.length_append] at htotal ⊢
        omega
    · rintro ⟨hv, hrest⟩
      rw [scan_plain hv hhead, Option.bind_some, hgap, hrest]
      rfl

/-- A statement with inserted values keeps the tokens of its template exactly when every value is
plain. -/
theorem template_iff {first : List Char} {pieces : List (List Char × List Char)}
    (hfirst : IsGapText first) (hpieces : ∀ piece ∈ pieces, IsGapText piece.2) :
    tokens (first ++ literals pieces) = some (gapTokens first ++ literalTokens pieces) ↔
      ∀ piece ∈ pieces, Plain '"' piece.1 = true := by
  rw [tokens_gap hfirst.2 (head_literals pieces), ← literals_iff hpieces]
  constructor
  · intro h
    obtain ⟨ts, hts, heq⟩ := Option.map_eq_some_iff.mp h
    rw [hts, List.append_cancel_left heq]
  · intro h
    rw [h]
    rfl

/-- The values of the literals among tokens. -/
def literalValues (ts : List Token) : List (List Char) :=
  ts.filterMap fun
    | .str v => some v
    | _ => none

theorem literalValues_gapTokens {p : List Char} (hp : ∀ c ∈ p, isGap c = true) :
    literalValues (gapTokens p) = [] := by
  rw [literalValues, List.filterMap_eq_nil_iff]
  intro t ht
  cases t with
  | str v => exact absurd ht (str_notMem_gapTokens hp v)
  | word w => rfl
  | symbol c => rfl

/-- The literals of a template are the inserted values, in order. -/
theorem literalValues_template {first : List Char} {pieces : List (List Char × List Char)}
    (hfirst : ∀ c ∈ first, isGap c = true) (hpieces : ∀ piece ∈ pieces, IsGapText piece.2) :
    literalValues (gapTokens first ++ literalTokens pieces) = pieces.map Prod.fst := by
  have happend : ∀ a b, literalValues (a ++ b) = literalValues a ++ literalValues b :=
    fun a b => List.filterMap_append
  rw [happend, literalValues_gapTokens hfirst, List.nil_append]
  induction pieces with
  | nil => rfl
  | cons piece pieces ih =>
    obtain ⟨v, p⟩ := piece
    have hp := hpieces _ (List.mem_cons_self ..)
    have hcons : literalValues (literalTokens ((v, p) :: pieces)) =
        v :: (literalValues (gapTokens p) ++ literalValues (literalTokens pieces)) := by
      rw [← happend]
      rfl
    rw [hcons, literalValues_gapTokens hp.2, List.nil_append,
      ih fun piece hmem => hpieces piece (List.mem_cons_of_mem _ hmem)]
    rfl

end Sql
