import Mathlib.Data.List.DropRight
import Mathlib.Data.List.Infix

/-! Streaks at the end of a list, and counters that follow them.  A counter modulo `m` that goes up
on every hit and back to zero on every miss shows the length of the current streak, as long as that
stays below `m`, so it reaches a bound below `m` for the first time when the streak does. -/

namespace Streak

variable {α : Type} {p : α → Bool} {m n : Nat} {l : List α}

/-- The number of elements at the end of the list that satisfy `p`. -/
def streak (p : α → Bool) (l : List α) : Nat := (l.rtakeWhile p).length

/-- The value of a counter modulo `m` after the elements of the list. -/
def counter (m : Nat) (p : α → Bool) (l : List α) : Nat :=
  l.foldl (fun c x => if p x then (c + 1) % m else 0) 0

/-- The list has the property, and no shorter beginning of it has. -/
def First (P : List α → Prop) (l : List α) : Prop :=
  P l ∧ ∀ earlier, earlier <+: l → P earlier → earlier = l

/-! ### Streaks -/

@[simp] theorem streak_nil : streak p [] = 0 := rfl

theorem streak_hit {x : α} (hx : p x = true) : streak p (l ++ [x]) = streak p l + 1 := by
  rw [streak, List.rtakeWhile_concat_pos p l x hx, List.length_append, List.length_singleton,
    streak]

theorem streak_miss {x : α} (hx : p x = false) : streak p (l ++ [x]) = 0 := by
  rw [streak, List.rtakeWhile_concat_neg p l x (by simp [hx]), List.length_nil]

/-- One more element makes the streak at most one longer. -/
theorem streak_concat_le (x : α) : streak p (l ++ [x]) ≤ streak p l + 1 := by
  cases hx : p x with
  | true => rw [streak_hit hx]
  | false =>
    rw [streak_miss hx]
    omega

/-- The streak is as long as the longest end of equal elements. -/
theorem replicate_suffix_iff [DecidableEq α] {a : α} :
    List.replicate n a <:+ l ↔ n ≤ streak (fun x => decide (x = a)) l := by
  constructor
  · rintro ⟨front, rfl⟩
    induction n with
    | zero => exact Nat.zero_le _
    | succ n ih =>
      rw [List.replicate_succ', ← List.append_assoc, streak_hit (by simp)]
      exact Nat.succ_le_succ ih
  · intro h
    have hequal : l.rtakeWhile (fun x => decide (x = a)) =
        List.replicate (streak (fun x => decide (x = a)) l) a :=
      List.eq_replicate_of_mem fun x hx => by simpa using List.mem_rtakeWhile_imp hx
    refine List.IsSuffix.trans ⟨List.replicate (streak (fun x => decide (x = a)) l - n) a, ?_⟩
      (List.rtakeWhile_suffix (fun x => decide (x = a)) l)
    rw [hequal, List.replicate_append_replicate, Nat.sub_add_cancel h]

/-! ### Counters -/

@[simp] theorem counter_nil : counter m p [] = 0 := rfl

theorem counter_concat (x : α) :
    counter m p (l ++ [x]) = if p x then (counter m p l + 1) % m else 0 := by
  rw [counter, List.foldl_concat, counter]

/-- The counter shows the streak modulo `m`. -/
theorem counter_eq : counter m p l = streak p l % m := by
  induction l using List.reverseRecOn with
  | nil => rw [counter_nil, streak_nil, Nat.zero_mod]
  | append_singleton l x ih =>
    rw [counter_concat]
    cases hx : p x with
    | true => rw [if_pos rfl, ih, streak_hit hx, Nat.mod_add_mod]
    | false => rw [if_neg Bool.false_ne_true, streak_miss hx, Nat.zero_mod]

theorem counter_lt (hm : 0 < m) : counter m p l < m := by
  rw [counter_eq]
  exact Nat.mod_lt _ hm

/-- A beginning of a proper beginning is a proper one. -/
theorem ne_of_beginning {earlier later : List α} (hearlier : earlier <+: later)
    (hlater : later <+: l) (hne : later ≠ l) : earlier ≠ l := by
  rintro rfl
  exact hne (hlater.eq_of_length_le hearlier.length_le)

/-- As long as the counter has not reached the bound, it shows the streak itself. -/
theorem counter_eq_of_lt (hn : n < m)
    (h : ∀ earlier, earlier <+: l → earlier ≠ l → counter m p earlier < n) :
    counter m p l = streak p l := by
  induction l using List.reverseRecOn with
  | nil => rfl
  | append_singleton l x ih =>
    have hprefix : l <+: l ++ [x] := List.prefix_append l [x]
    have hne : l ≠ l ++ [x] := by simp
    have hlt := h l hprefix hne
    have hstreak : counter m p l = streak p l := by
      apply ih
      intro earlier hearlier _
      exact h earlier (hearlier.trans hprefix) (ne_of_beginning hearlier hprefix hne)
    have hle := streak_concat_le (p := p) (l := l) x
    rw [counter_eq]
    exact Nat.mod_eq_of_lt (by omega)

/-- While the counter has not reached the bound, the streak has not either. -/
theorem streak_lt_of_lt (hn : n < m) (h : ∀ earlier, earlier <+: l → counter m p earlier < n) :
    streak p l < n := by
  rw [← counter_eq_of_lt hn fun earlier hearlier _ => h earlier hearlier]
  exact h l (List.prefix_refl l)

/-- As long as the counter has not reached a bound below `m` before, it reaches it when the streak
does so for the first time. -/
theorem first_streak_iff (hn : n < m)
    (h : ∀ earlier, earlier <+: l → earlier ≠ l → counter m p earlier < n) :
    First (fun l => n ≤ streak p l) l ↔ n ≤ counter m p l := by
  rw [counter_eq_of_lt hn h]
  constructor
  · exact And.left
  · intro hl
    refine ⟨hl, fun earlier hearlier hle => ?_⟩
    by_contra hne
    have hstreak : counter m p earlier = streak p earlier := by
      apply counter_eq_of_lt hn
      intro before hbefore _
      exact h before (hbefore.trans hearlier) (ne_of_beginning hbefore hearlier hne)
    have hlt := h earlier hearlier hne
    omega

end Streak
