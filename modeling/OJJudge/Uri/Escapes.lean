import OJJudge.Uri.RoundTrip

/-! What `url_decode` makes of malformed escapes.  `sscanf` leaves the scratch integer alone when it
finds no number, and the loop then writes what the integer held before: a byte of an earlier escape,
or of no escape at all. -/

namespace OJJudge

/-! ### The texts that `sscanf` reads -/

/-- `sscanf` reads a number from the text of an escape: a digit, or a blank or a sign and then a
digit.  What follows is ignored, the letter of `0x` too. -/
def readable : Bytes → Bool
  | [a] => isHexDigit a
  | [a, b] => isHexDigit a || (isSpaceByte a || a == 43 || a == 45) && isHexDigit b
  | _ => false

theorem scanHex_zero (s : Bytes) : scanHex (0 :: s) = none := by
  simp [scanHex]

theorem scanHex_space {a : UInt8} (s : Bytes) (h : isSpaceByte a = true) :
    scanHex (a :: s) = scanHex s := by
  have hzero : a ≠ 0 := by
    rintro rfl
    exact absurd h (by decide)
  have hdrop : ((a :: s).takeWhile (· ≠ 0)).dropWhile isSpaceByte =
      (s.takeWhile (· ≠ 0)).dropWhile isSpaceByte := by
    rw [List.takeWhile_cons_of_pos (by simpa using hzero), List.dropWhile_cons_of_pos h]
  unfold scanHex
  rw [hdrop]

/-- Without a blank or a sign, the first byte decides: the zero of a prefix is a digit. -/
theorem scanHex_other {a : UInt8} (s : Bytes) (hzero : a ≠ 0) (hspace : isSpaceByte a = false)
    (hsign : ¬(a = 43 ∨ a = 45)) : (scanHex (a :: s)).isSome = isHexDigit a := by
  have hdrop : ((a :: s).takeWhile (· ≠ 0)).dropWhile isSpaceByte =
      a :: s.takeWhile (· ≠ 0) := by
    rw [List.takeWhile_cons_of_pos (by simpa using hzero),
      List.dropWhile_cons_of_neg (by simp [hspace])]
  have hsome : ∀ tail, (a :: tail).takeWhile isHexDigit = [] ↔ isHexDigit a = false := by
    intro tail
    cases hdigit : isHexDigit a <;> simp [hdigit]
  have hminus : (a :: s.takeWhile (· ≠ 0)).head? ≠ some 45 := by
    intro hhead
    exact hsign (.inr (Option.some_inj.mp hhead))
  unfold scanHex
  rw [hdrop]
  generalize s.takeWhile (· ≠ 0) = rest at hminus
  simp only [hsign, if_false, hminus]
  cases rest with
  | nil =>
    simp only [hsome]
    cases isHexDigit a <;> rfl
  | cons b rest =>
    dsimp only
    split
    · simp only [hsome]
      cases isHexDigit a <;> rfl
    · simp only [hsome]
      cases isHexDigit a <;> rfl

theorem scanHex_one (a : UInt8) : (scanHex [a]).isSome = isHexDigit a := by
  by_cases hzero : a = 0
  · subst hzero
    rfl
  by_cases hspace : isSpaceByte a = true
  · rw [scanHex_space _ hspace, isHexDigit_of_isSpaceByte hspace]
    rfl
  rw [Bool.not_eq_true] at hspace
  by_cases hsign : a = 43 ∨ a = 45
  · rcases hsign with rfl | rfl <;> rfl
  · exact scanHex_other _ hzero hspace hsign

/-- After a sign, the second byte decides. -/
theorem scanHex_sign {a : UInt8} (b : UInt8) (hsign : a = 43 ∨ a = 45) :
    (scanHex [a, b]).isSome = isHexDigit b := by
  have hspace : isSpaceByte a = false := by
    rcases hsign with rfl | rfl <;> rfl
  have hzero : a ≠ 0 := by
    rcases hsign with rfl | rfl <;> decide
  by_cases hb : b = 0
  · subst hb
    rcases hsign with rfl | rfl <;> rfl
  · unfold scanHex
    cases hdigit : isHexDigit b with
    | false => simp [hzero, hb, hspace, hsign, hdigit]
    | true =>
      simp [hzero, hb, hspace, hsign, hdigit]
      split <;> rfl

theorem scanHex_two (a b : UInt8) : (scanHex [a, b]).isSome = readable [a, b] := by
  by_cases hzero : a = 0
  · subst hzero
    rw [scanHex_zero]
    rfl
  by_cases hspace : isSpaceByte a = true
  · rw [scanHex_space _ hspace, scanHex_one]
    simp [readable, hspace, isHexDigit_of_isSpaceByte hspace]
  rw [Bool.not_eq_true] at hspace
  by_cases hsign : a = 43 ∨ a = 45
  · rw [scanHex_sign b hsign]
    rcases hsign with rfl | rfl <;> simp [readable, isHexDigit]
  · rw [scanHex_other _ hzero hspace hsign]
    rw [not_or] at hsign
    simp only [readable, hspace, beq_false_of_ne hsign.1, beq_false_of_ne hsign.2]
    simp

theorem isSome_scanHex {text : Bytes} (h : text.length ≤ 2) :
    (scanHex text).isSome = readable text := by
  match text with
  | [] => rfl
  | [a] => exact scanHex_one a
  | [a, b] => exact scanHex_two a b
  | _ :: _ :: _ :: _ =>
    simp only [List.length_cons] at h
    omega

/-- A prefix without digits reads as zero. -/
example : scanHex (bytes "0x") = some 0 ∧ readable (bytes "0x") = true := by decide

/-! ### The turns of the loop -/

/-- One turn of the loop: an escape with the text after its percent sign, or another byte. -/
inductive Turn
  | escape (text : Bytes)
  | byte (ch : UInt8)
  deriving DecidableEq

/-- The turns that the loop takes through a string. -/
def turns : Bytes → List Turn
  | [] => []
  | ch :: rest =>
    if ch = '%'.toUInt8 then
      match rest with
      | [] => [.escape []]
      | [a] => [.escape [a]]
      | a :: b :: rest => .escape [a, b] :: turns rest
    else .byte ch :: turns rest

theorem turns_byte {ch : UInt8} (h : ch ≠ '%'.toUInt8) (rest : Bytes) :
    turns (ch :: rest) = .byte ch :: turns rest := by
  rw [turns.eq_def]
  exact if_neg h

/-- What a turn adds to the index. -/
def Turn.width : Turn → Nat
  | escape _ => 3
  | byte _ => 1

/-- The index after the last turn. -/
def endIndex (s : Bytes) : Nat := ((turns s).map Turn.width).sum

/-- What the turns write, with what the scratch integer holds before them. -/
def decodeTurns (ii : UInt32) : List Turn → Bytes
  | [] => []
  | .escape text :: rest =>
    ((scanHex text).getD ii).toUInt8 :: decodeTurns ((scanHex text).getD ii) rest
  | .byte ch :: rest => (if ch = '+'.toUInt8 then ' '.toUInt8 else ch) :: decodeTurns ii rest

theorem decodeFrom_eq_turns {i : Nat} (ii : UInt32) (s : Bytes) (hi : i ≤ 2147483647) :
    decodeFrom i ii s =
      if i + endIndex s ≤ 2147483647 then some (decodeTurns ii (turns s)) else none := by
  unfold endIndex
  fun_induction decodeFrom i ii s with
  | case1 i ii => simp [turns, decodeTurns, hi]
  | case2 i ii rest hlt =>
    refine (if_neg ?_).symm
    rw [turns.eq_def]
    simp only [if_true]
    split
    all_goals
      simp only [List.map_cons, List.sum_cons, Turn.width]
      omega
  | case3 i ii hlt ih | case4 i ii hlt a ih =>
    rw [ih (by omega)]
    simp [turns, decodeTurns, Turn.width, show i + 3 ≤ 2147483647 by omega]
  | case5 i ii hlt a b rest ih =>
    rw [ih (by omega)]
    simp only [turns, if_true, List.map_cons, List.sum_cons, Turn.width, decodeTurns, Nat.add_assoc]
    split <;> rfl
  | case6 i ii ch rest hne hlt =>
    refine (if_neg ?_).symm
    rw [turns_byte hne]
    simp only [List.map_cons, List.sum_cons, Turn.width]
    omega
  | case7 i ii rest hlt hne ih =>
    rw [ih (by omega), turns_byte hne]
    simp only [List.map_cons, List.sum_cons, Turn.width, decodeTurns, Nat.add_assoc, if_true]
    split <;> rfl
  | case8 i ii ch rest hne hlt hplus ih =>
    rw [ih (by omega), turns_byte hne]
    simp only [List.map_cons, List.sum_cons, Turn.width, decodeTurns, Nat.add_assoc, hplus, if_false]
    split <;> rfl

theorem url_decode_eq_turns (ii : UInt32) (s : Bytes) :
    url_decode ii s =
      if endIndex s ≤ 2147483647 then some (decodeTurns ii (turns s)) else none := by
  rw [url_decode, decodeFrom_eq_turns ii s (by decide), Nat.zero_add]

theorem length_le_of_mem_turns {s text : Bytes} (h : .escape text ∈ turns s) : text.length ≤ 2 := by
  fun_induction turns s with
  | case1 => cases h
  | case2 | case3 a =>
    rw [List.mem_singleton, Turn.escape.injEq] at h
    simp [h]
  | case4 a b rest ih =>
    obtain h | h := List.mem_cons.mp h
    · rw [Turn.escape.injEq] at h
      simp [h]
    · exact ih h
  | case5 ch rest hne ih =>
    obtain h | h := List.mem_cons.mp h
    · cases h
    · exact ih h

/-- A string can be cut between two of its turns. -/
theorem turns_split {s : Bytes} {before after : List Turn} (h : turns s = before ++ after) :
    ∃ a b, s = a ++ b ∧ turns a = before ∧ turns b = after := by
  induction before generalizing s with
  | nil => exact ⟨[], s, rfl, rfl, h⟩
  | cons turn before ih =>
    rw [turns.eq_def] at h
    split at h
    · cases h
    · next ch rest =>
      split at h
      · next hpercent =>
        split at h
        · obtain ⟨rfl, hnil⟩ := List.cons.inj h
          obtain ⟨rfl, rfl⟩ := List.append_eq_nil_iff.mp hnil.symm
          exact ⟨[ch], [], by simp, by simp [turns, hpercent], rfl⟩
        · next a =>
          obtain ⟨rfl, hnil⟩ := List.cons.inj h
          obtain ⟨rfl, rfl⟩ := List.append_eq_nil_iff.mp hnil.symm
          exact ⟨[ch, a], [], by simp, by simp [turns, hpercent], rfl⟩
        · next a b rest =>
          obtain ⟨rfl, hrest⟩ := List.cons.inj h
          obtain ⟨c, d, rfl, hc, hd⟩ := ih hrest
          exact ⟨ch :: a :: b :: c, d, rfl, by simp [turns, hpercent, hc], hd⟩
      · next hne =>
        obtain ⟨rfl, hrest⟩ := List.cons.inj h
        obtain ⟨c, d, rfl, hc, hd⟩ := ih hrest
        exact ⟨ch :: c, d, rfl, by rw [turns_byte hne, hc], hd⟩

/-! ### Scratch -/

/-- Turns whose escapes are readable write the same whatever the scratch integer holds. -/
theorem decodeTurns_scratch {ts : List Turn}
    (h : ∀ text, .escape text ∈ ts → (scanHex text).isSome) (ii ii' : UInt32) :
    decodeTurns ii ts = decodeTurns ii' ts := by
  induction ts with
  | nil => rfl
  | cons turn ts ih =>
    cases turn with
    | escape text =>
      obtain ⟨v, hv⟩ := Option.isSome_iff_exists.mp (h text (List.mem_cons_self ..))
      simp [decodeTurns, hv]
    | byte ch =>
      rw [decodeTurns, decodeTurns, ih fun text htext => h text (List.mem_cons_of_mem _ htext)]

theorem decodeTurns_append {ts us : List Turn}
    (h : ∀ text, .escape text ∈ us → (scanHex text).isSome) (ii ii' : UInt32) :
    decodeTurns ii (ts ++ us) = decodeTurns ii ts ++ decodeTurns ii' us := by
  induction ts generalizing ii with
  | nil => exact decodeTurns_scratch h ii ii'
  | cons turn ts ih =>
    cases turn with
    | escape text => rw [List.cons_append, decodeTurns, decodeTurns, ih, List.cons_append]
    | byte ch => rw [List.cons_append, decodeTurns, decodeTurns, ih, List.cons_append]

/-- What a string decodes to, whatever the scratch integer holds. -/
def DecodesTo (s decoded : Bytes) : Prop := ∀ ii, url_decode ii s = some decoded

/-- The loop takes the turns of `a` and then those of `b`: the cut between them does not fall within
an escape. -/
def CutsNoEscape (a b : Bytes) : Prop := turns (a ++ b) = turns a ++ turns b

/-- The decoded string depends on the string alone, and so does that of every part of it. -/
def DecodesAlone (s : Bytes) : Prop :=
  ∃ decoded, DecodesTo s decoded ∧ ∀ a b, s = a ++ b → CutsNoEscape a b →
    ∃ decoded₁ decoded₂, DecodesTo a decoded₁ ∧ DecodesTo b decoded₂ ∧
      decoded = decoded₁ ++ decoded₂

/-- A string decodes alone exactly when `sscanf` reads a number from each of its escapes, and the
index does not overflow. -/
theorem decodes_alone_iff (s : Bytes) :
    DecodesAlone s ↔
      (∀ text, .escape text ∈ turns s → readable text = true) ∧ endIndex s ≤ 2147483647 := by
  constructor
  · rintro ⟨decoded, hs, hparts⟩
    refine ⟨fun text htext => ?_, ?_⟩
    · -- Cut in front of an escape that is not readable: its byte is what the scratch integer holds.
      by_contra hbad
      obtain ⟨before, after, hturns⟩ := List.append_of_mem htext
      obtain ⟨a, b, rfl, ha, hb⟩ := turns_split hturns
      obtain ⟨_, decoded₂, -, hdecodes, -⟩ := hparts a b rfl (by rw [CutsNoEscape, hturns, ha, hb])
      have hnone : scanHex text = none := by
        rw [← Option.not_isSome_iff_eq_none, isSome_scanHex (length_le_of_mem_turns htext)]
        exact hbad
      have hfirst : ∀ ii : UInt32, decoded₂.head? = some ii.toUInt8 := by
        intro ii
        have hii := hdecodes ii
        rw [url_decode_eq_turns] at hii
        split at hii
        · rw [Option.some_inj, hb] at hii
          rw [← hii, decodeTurns, hnone]
          rfl
        · cases hii
      have hsame := (hfirst 0).symm.trans (hfirst 1)
      exact absurd hsame (by decide)
    · by_contra hlong
      have h0 := hs 0
      rw [url_decode_eq_turns, if_neg hlong] at h0
      cases h0
  · rintro ⟨hreadable, hend⟩
    have hsome : ∀ text, .escape text ∈ turns s → (scanHex text).isSome := by
      intro text htext
      rw [isSome_scanHex (length_le_of_mem_turns htext)]
      exact hreadable text htext
    have hdecodes : ∀ t : Bytes, (∀ text, .escape text ∈ turns t → (scanHex text).isSome) →
        endIndex t ≤ 2147483647 → DecodesTo t (decodeTurns 0 (turns t)) := by
      intro t ht hshort ii
      rw [url_decode_eq_turns, if_pos hshort, decodeTurns_scratch ht ii 0]
    refine ⟨_, hdecodes s hsome hend, ?_⟩
    rintro a b rfl hcut
    have hab : turns (a ++ b) = turns a ++ turns b := hcut
    have hsum : endIndex (a ++ b) = endIndex a + endIndex b := by
      rw [endIndex, hab, List.map_append, List.sum_append]
      rfl
    have ha : ∀ text, .escape text ∈ turns a → (scanHex text).isSome := fun text h =>
      hsome text (hab ▸ List.mem_append_left _ h)
    have hb : ∀ text, .escape text ∈ turns b → (scanHex text).isSome := fun text h =>
      hsome text (hab ▸ List.mem_append_right _ h)
    refine ⟨_, _, hdecodes a ha (by omega), hdecodes b hb (by omega), ?_⟩
    rw [hab, decodeTurns_append hb 0 0]

/-- The second escape repeats the byte of the first one. -/
theorem malformed_escape_repeats :
    DecodesTo (bytes "%41%zz") (bytes "AA") ∧ ¬DecodesAlone (bytes "%41%zz") := by
  constructor
  · intro ii
    rw [url_decode_eq_turns]
    rfl
  · rintro ⟨decoded, -, hparts⟩
    obtain ⟨_, decoded₂, -, hdecodes, -⟩ :=
      hparts (bytes "%41") (bytes "%zz") rfl (by unfold CutsNoEscape; decide)
    have hsame := (hdecodes 0).trans (hdecodes 1).symm
    exact absurd hsame (by decide)

end OJJudge
