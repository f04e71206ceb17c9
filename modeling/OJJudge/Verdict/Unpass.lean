import OJJudge.Verdict.Recording

/-! Rows `Unpass`.  The job sets the last per-test key before it counts the last test, and a poll
reads the counter before the per-test keys, so a poll can find every test decided next to a counter
that misses the last increments. -/

namespace OJJudge.Verdict

open Concurrency

/-- Only the first submission and the polls run, and where every comparison of the job has matched
so far, a poll that has found the earlier tests decided does not find the last one decided unless it
read the counter after the job's last increment. -/
def countedFirst (f : String) (n : Nat) : Config machine → Thread → Prop
  | _, .submission k => k = 0
  | c, .poll p =>
    (c.prog (.poll p)).next? = some (.get (testKey f (n - 1))) →
    reported (c.mem.redis (testKey f (n - 1))) ≠ "0" →
    foundDecided f (own (.poll p) c.trace) →
    (∀ code ∈ compareCodes (own (.submission 0) c.trace), code = 1) →
    counts (marks f (own (.submission 0) (beforeLast (.poll p) (.get (sumKey f)) c.trace))) = n

instance (f : String) (n : Nat) : ∀ c t, Decidable (countedFirst f n c t)
  | _, .submission k => inferInstanceAs (Decidable (k = 0))
  | c, .poll p => by unfold countedFirst; infer_instance

variable {user_name porblem_title : String} {body : Nat → Bytes} {m : Memory} {c : Config machine}
  {n : Nat}

/-- The counter of a pair with one submission is what that submission left there. -/
theorem value_sum_own {ok : Config machine → Thread → Prop}
    (h : Reach ok (start user_name porblem_title body m) c)
    (hone : ∀ e ∈ c.trace, ∀ k, e.1 = .submission k → k = 0) (v : Option String) :
    value (sumKey (fileName user_name porblem_title)) v
        (marks (fileName user_name porblem_title) (c.trace.map Prod.snd)) =
      value (sumKey (fileName user_name porblem_title)) v
        (marks (fileName user_name porblem_title) (own (.submission 0) c.trace)) := by
  refine value_own ?_ v
  rintro ⟨t, e⟩ he ht
  cases t with
  | submission k => exact absurd (congrArg Thread.submission (hone _ he k rfl)) ht
  | poll k => exact poll_keeps_sum (thread_op h he) e.res

/-- A job that matches all its answer files gets no row `Unpass`. -/
theorem unpass_has_mismatch (hn : 0 < n) (tests : m.HasTests porblem_title n)
    (h : Reach (countedFirst (fileName user_name porblem_title) n)
      (start user_name porblem_title body m) c)
    (hrow : ⟨user_name, porblem_title, "Unpass"⟩ ∈ recorded c.trace) :
    ∃ code ∈ compareCodes (own (.submission 0) c.trace), code ≠ 1 := by
  by_contra hall
  push Not at hall
  obtain ⟨k, r, hmem⟩ := insert_of_recorded h hrow
  obtain ⟨-, -, rows, w, vs, i, hlen, decided, hres, hown⟩ :=
    (poll_history tests h k).of_insert (mem_own.mpr hmem)
  obtain ⟨v, vs, rfl⟩ := List.exists_cons_of_length_pos (show 0 < vs.length by omega)
  have hlast : vs.length = n - 1 := by simp at hlen; omega
  -- The counter that the poll read holds all `n` increments.
  obtain ⟨c₀, l₀, h₀, hok, hnext, hown₀, hv, htr₀, -⟩ := read_test h hown
  obtain ⟨c₁, l₁, h₁, hw, htr₁, hown₁⟩ := read_sum h₀ (hown₀.trans (List.nil_append _).symm)
  rw [hlast] at hnext hv
  have hcounts : counts (marks (fileName user_name porblem_title)
      (own (.submission 0) c₁.trace)) = n := by
    have hbefore : beforeLast (.poll k) (Op.get (sumKey (fileName user_name porblem_title)))
        c₀.trace = c₁.trace := by
      rw [htr₁, beforeLast_append, beforeLast_cons_same]
      intro e he
      rw [hown₁, List.nil_append] at he
      obtain ⟨i, v, rfl⟩ := mem_testReads he
      simp
    rw [← hbefore]
    refine hok hnext (hv ▸ decided v (by simp)) ?_ ?_
    · rw [hown₀]
      exact foundDecided_reads fun v hv => decided v (by simp [hv])
    · intro code hcode
      refine hall code ?_
      rw [htr₀, own_append, own_cons_ne (by simp), compareCodes, List.filterMap_append,
        List.mem_append]
      exact .inr hcode
  have hsum : w = some (toString n) := by
    have hjudged := submission_history tests h₁ 0
    rw [← hw, reach_redis h₁ (judgeKey_ne_sumKey _).symm,
      value_sum_own h₁ (only_first h₁ fun _ _ hk => hk),
      hjudged.value_sum (by omega), hcounts]
    simp
  simp [result, hsum] at hres

/-- One test, a mismatch, and a poll after the job has returned. -/
theorem unpass_has_mismatch_one_test :
    ∃ c, Reach (countedFirst (fileName "u" "p") 1)
        (start "u" "p" (fun _ => []) (Memory.ofProblem "p" [("1.in", "1.out")])) c ∧
      ⟨"u", "p", "Unpass"⟩ ∈ recorded c.trace ∧
      ∃ code ∈ compareCodes (own (.submission 0) c.trace), code ≠ 1 := by
  obtain ⟨c, hc, hrow⟩ := Config.exists_reach (countedFirst (fileName "u" "p") 1)
    (start "u" "p" (fun _ => []) (Memory.ofProblem "p" [("1.in", "1.out")]))
    (turns (.submission 0) 26 0 ++ turns (.poll 0) 6 0)
    (fun c => recorded c.trace) [⟨"u", "p", "Unpass"⟩] (by decide +kernel)
  have hmem : ⟨"u", "p", "Unpass"⟩ ∈ recorded c.trace := by simp [hrow]
  exact ⟨c, hc, hmem, unpass_has_mismatch Nat.one_pos (Memory.hasTests_ofProblem _ _) hc hmem⟩

/-- One test, a match, and a poll that reads the counter before `SET` of the per-test key and the
per-test key before `INCR`. -/
theorem unpass_without_mismatch :
    ∃ c, Reach oneSubmission
        (start "u" "p" (fun _ => []) (Memory.ofProblem "p" [("1.in", "1.out")])) c ∧
      ⟨"u", "p", "Unpass"⟩ ∈ recorded c.trace ∧
      compareCodes (own (.submission 0) c.trace) = [1] := by
  obtain ⟨c, hc, hv⟩ := Config.exists_reach oneSubmission
    (start "u" "p" (fun _ => []) (Memory.ofProblem "p" [("1.in", "1.out")]))
    (turns (.submission 0) 21 0 ++ turns (.submission 0) 1 1 ++ turns (.poll 0) 2 0 ++
      turns (.submission 0) 1 0 ++ turns (.poll 0) 4 0)
    (fun c => (recorded c.trace, compareCodes (own (.submission 0) c.trace)))
    ([⟨"u", "p", "Unpass"⟩], [1]) (by decide +kernel)
  simp only [Prod.mk.injEq] at hv
  exact ⟨c, hc, by simp [hv.1], hv.2⟩

end OJJudge.Verdict
