import OJJudge.Verdict.Recording

/-! Rows `Pass`.  All submissions of a pair count into one key, so the increments of different jobs
add up.  While the increments since the last reset come from one job, the counter reaches the
number of tests only when that job has matched them all. -/

namespace OJJudge.Verdict

open Concurrency

/-- The threads that have incremented the counter since it was last set, newest first. -/
def counters (f : String) : List (Thread × Event effects) → List Thread
  | [] => []
  | (t, e) :: earlier =>
    match mark f e with
    | some (.counted key) => if key = sumKey f then t :: counters f earlier else counters f earlier
    | some (.wrote key _) => if key = sumKey f then [] else counters f earlier
    | _ => counters f earlier

/-- The increment that brings the counter to `n` follows only increments by the same thread since
the counter was set. -/
def countedAlone (f : String) (n : Nat) (c : Config machine) (t : Thread) : Prop :=
  (c.prog t).next? = some (.incr (sumKey f)) →
    incrValue (c.mem.redis (sumKey f)) = some (toString n) → ∀ u ∈ counters f c.trace, u = t

instance (f : String) (n : Nat) (c : Config machine) (t : Thread) :
    Decidable (countedAlone f n c t) := by
  unfold countedAlone
  infer_instance

/-- No job has more increments since the counter was set than it has made. -/
theorem counters_le (f : String) (k : Nat) : ∀ trace : List (Thread × Event effects),
    (counters f trace).count (.submission k) ≤ counts (marks f (own (.submission k) trace))
  | [] => by simp [counters]
  | (t, e) :: trace => by
    have ih := counters_le f k trace
    have hgrow := counts_own_mono f (.submission k) (t, e) trace
    simp only [counters]
    split
    · next key hmk =>
      split
      · by_cases ht : t = .submission k
        · rw [marks_own_cons, if_pos ht, hmk]
          simpa [ht] using ih
        · simpa [List.count_cons, ht] using ih.trans hgrow
      · exact ih.trans hgrow
    · split
      · simp
      · exact ih.trans hgrow
    · exact ih.trans hgrow

/-- A job sets the counter to the decimal form of an integer that is not positive. -/
theorem repr_of_set {value : String} (h : value = "0" ∨ value = "-2" ∨ value = "-3") :
    ∃ base : Int, base ≤ 0 ∧ value = base.repr := by
  rcases h with rfl | rfl | rfl
  · exact ⟨0, by omega, by decide⟩
  · exact ⟨-2, by omega, by decide⟩
  · exact ⟨-3, by omega, by decide⟩

section Run

variable {ok : Config machine → Thread → Prop} {user_name porblem_title : String}
  {body : Nat → Bytes} {m : Memory} {c : Config machine} {n : Nat}

/-- After the first reset the counter is the number of increments since it was set, above `0`, `-2`
or `-3`. -/
theorem counter_value (tests : m.HasTests porblem_title n)
    (h : Reach ok (start user_name porblem_title body m) c) :
    ((∀ k, marks (fileName user_name porblem_title) (own (.submission k) c.trace) = []) ∧
      c.mem.redis (sumKey (fileName user_name porblem_title)) =
        m.redis (sumKey (fileName user_name porblem_title))) ∨
    ∃ base : Int, base ≤ 0 ∧ c.mem.redis (sumKey (fileName user_name porblem_title)) =
      some (base + (counters (fileName user_name porblem_title) c.trace).length).repr := by
  have hkey := (judgeKey_ne_sumKey (fileName user_name porblem_title)).symm
  refine h.induct (I := fun c : Config machine =>
    ((∀ k, marks (fileName user_name porblem_title) (own (.submission k) c.trace) = []) ∧
      c.mem.redis (sumKey (fileName user_name porblem_title)) =
        m.redis (sumKey (fileName user_name porblem_title))) ∨
    ∃ base : Int, base ≤ 0 ∧ c.mem.redis (sumKey (fileName user_name porblem_title)) =
      some (base + (counters (fileName user_name porblem_title) c.trace).length).repr)
    (.inl ⟨fun k => rfl, rfl⟩) ?_
  intro c t x o k r m' hr ih hok hp he
  obtain hmk | ⟨j, mk, rfl, hmk, hstep⟩ | ⟨j, i, rfl, hmk⟩ := step_mark tests hr hok hp he
  · simpa [marks_own_cons, hmk, counters, exec_redis_quiet hkey hmk he] using ih
  · have hredis := exec_redis_mark hkey hmk he
    -- A mark after the first one follows a reset.
    have hset : marks (fileName user_name porblem_title) (own (.submission j) c.trace) ≠ [] →
        ∃ base : Int, base ≤ 0 ∧ c.mem.redis (sumKey (fileName user_name porblem_title)) =
          some (base + (counters (fileName user_name porblem_title) c.trace).length).repr :=
      fun hne => ih.resolve_left fun hnone => hne (hnone.1 j)
    generalize marks (fileName user_name porblem_title) (own (.submission j) c.trace) = ms
      at hstep hset
    right
    cases hstep with
    | reset =>
      obtain ⟨base, hbase, hval⟩ := repr_of_set (.inl rfl)
      exact ⟨base, hbase, by simpa [Mark.after, counters, hmk, ← hval] using hredis⟩
    | error code hcode =>
      obtain ⟨base, hbase, rfl⟩ := repr_of_set (.inr hcode)
      exact ⟨base, hbase, by simpa [Mark.after, counters, hmk] using hredis⟩
    | count cs hcs =>
      obtain ⟨base, hbase, hval⟩ := hset (by simp)
      exact ⟨base, hbase, by simpa [Mark.after, counters, hmk, hval, add_assoc] using hredis⟩
    | compare cs code hcs =>
      obtain ⟨base, hbase, hval⟩ := hset (judged_ne_nil _ cs)
      exact ⟨base, hbase, by simpa [Mark.after, counters, hmk, hval] using hredis⟩
    | pass cs hcs =>
      obtain ⟨base, hbase, hval⟩ := hset (by simp)
      exact ⟨base, hbase, by simpa [Mark.after, counters, hmk, hval] using hredis⟩
    | fail cs code hcs hcode =>
      obtain ⟨base, hbase, hval⟩ := hset (by simp)
      exact ⟨base, hbase, by simpa [Mark.after, counters, hmk, hval] using hredis⟩
  · simpa [marks_own_cons, hmk, counters, exec_redis_mark hkey hmk he, Mark.after] using ih

/-- While each last increment follows only increments of its own job, the counter reaches `n` only
when a job has counted `n` tests. -/
theorem counted_all (hn : 0 < n) (tests : m.HasTests porblem_title n)
    (hinit : m.redis (sumKey (fileName user_name porblem_title)) ≠ some (toString n))
    (h : Reach (countedAlone (fileName user_name porblem_title) n)
      (start user_name porblem_title body m) c)
    (hsum : c.mem.redis (sumKey (fileName user_name porblem_title)) = some (toString n)) :
    ∃ k, counts (marks (fileName user_name porblem_title) (own (.submission k) c.trace)) = n := by
  have hkey := (judgeKey_ne_sumKey (fileName user_name porblem_title)).symm
  have hpos : ∀ {base : Int}, base ≤ 0 → base.repr ≠ toString n := by
    intro base hbase heq
    rw [Nat.toString_eq_repr, ← repr_natCast, Int.repr_inj] at heq
    omega
  refine h.induct (I := fun c : Config machine =>
    c.mem.redis (sumKey (fileName user_name porblem_title)) = some (toString n) →
    ∃ k, counts (marks (fileName user_name porblem_title) (own (.submission k) c.trace)) = n)
    (fun hsum => absurd hsum hinit) ?_ hsum
  intro c t x o k r m' hr ih hok hp he hsum
  have hjudged := fun k => submission_history tests (hr.next hok hp he) k
  have hkeep : c.mem.redis (sumKey (fileName user_name porblem_title)) = some (toString n) →
      ∃ j, counts (marks (fileName user_name porblem_title)
        (own (.submission j) (c.after t o r k m').trace)) = n := by
    intro hold
    obtain ⟨j, hj⟩ := ih hold
    exact ⟨j, le_antisymm (hjudged j).counts_le_tests (hj.symm.le.trans (counts_own_mono _ _ _ _))⟩
  obtain hmk | ⟨j, mk, rfl, hmk, hstep⟩ | ⟨j, i, rfl, hmk⟩ := step_mark tests hr hok hp he
  · exact hkeep (exec_redis_quiet hkey hmk he ▸ hsum)
  · have hredis := (exec_redis_mark hkey hmk he).symm.trans hsum
    generalize hms : marks (fileName user_name porblem_title) (own (.submission j) c.trace) = ms
      at hstep
    cases hstep with
    | reset =>
      obtain ⟨base, hbase, hval⟩ := repr_of_set (.inl rfl)
      simp only [Mark.after, if_true, hval, Option.some.injEq] at hredis
      exact absurd hredis (hpos hbase)
    | error code hcode =>
      obtain ⟨base, hbase, rfl⟩ := repr_of_set (.inr hcode)
      simp only [Mark.after, if_true, Option.some.injEq] at hredis
      exact absurd hredis (hpos hbase)
    | count cs hcs =>
      obtain rfl := op_of_counted hmk
      simp only [Mark.after, if_true] at hredis
      have hall := hok (by simp [hp]) hredis
      obtain ⟨hnone, -⟩ | ⟨base, hbase, hval⟩ := counter_value tests hr
      · simp [hnone j] at hms
      · rw [hval, incrValue_repr, Option.some_inj, Nat.toString_eq_repr, ← repr_natCast,
          Int.repr_inj] at hredis
        have hlen := counters_le (fileName user_name porblem_title) j c.trace
        rw [List.count_eq_length.mpr fun u hu => (hall u hu).symm, hms] at hlen
        refine ⟨j, le_antisymm (hjudged j).counts_le_tests ?_⟩
        rw [Config.trace_after, marks_own_cons, if_pos rfl, hmk, hms, Option.toList_some,
          List.singleton_append, counts_counted]
        omega
    | compare cs code hcs => exact hkeep hredis
    | pass cs hcs => exact hkeep (by simpa [Mark.after] using hredis)
    | fail cs code hcs hcode => exact hkeep (by simpa [Mark.after] using hredis)
  · exact hkeep (by simpa [exec_redis_mark hkey hmk he, Mark.after] using hsum)

/-- The poll of a row `Pass` read the counter after a job had matched all `n` answer files. -/
theorem matched_of_insert (hn : 0 < n) (tests : m.HasTests porblem_title n)
    (hinit : m.redis (sumKey (fileName user_name porblem_title)) ≠ some (toString n))
    (h : Reach (countedAlone (fileName user_name porblem_title) n)
      (start user_name porblem_title body m) c) {k : Nat} {r : List (List String)}
    (hmem : (.poll k, ⟨.query (.insertSubmission user_name porblem_title "Pass"), r⟩) ∈ c.trace) :
    ∃ j, compareCodes (own (.submission j) c.trace) = List.replicate n 1 := by
  obtain ⟨-, -, rows, w, vs, i, -, -, hres, hown⟩ :=
    (poll_history tests h k).of_insert (mem_own.mpr hmem)
  obtain ⟨c₀, l, h₀, hw, htr, -⟩ := read_sum h hown
  obtain ⟨j, hj⟩ := counted_all hn tests hinit h₀ (hw.trans (eq_of_result_pass hres))
  have hcodes := (submission_history tests h₀ j).codes_eq hj
  rw [codes_marks] at hcodes
  refine ⟨j, matched_later tests h (htr.trans (List.append_cons _ _ _)) hcodes⟩

/-- A job is between its reset of the counter and its return. -/
def Judging (f : String) (c : Config machine) (k : Nat) : Prop :=
  marks f (own (.submission k) c.trace) ≠ [] ∧ (c.prog (.submission k)).returned = false

/-- Only a reset starts to judge. -/
theorem Judging.before {f : String} {t : Thread} {o : effects.Op}
    {k : effects.Res o → Prog effects Unit} {r : effects.Res o} {m' : Memory} {i : Nat}
    (h : Judging f (c.after t o r k m') i) (hp : c.prog t = .op o k)
    (hold : mark f ⟨o, r⟩ = none ∨ t ≠ .submission i ∨ marks f (own t c.trace) ≠ []) :
    Judging f c i := by
  obtain ⟨hne, hret⟩ := h
  rw [Config.trace_after, marks_own_cons] at hne
  by_cases ht : t = .submission i
  · subst ht
    rw [if_pos rfl] at hne
    rcases hold with hmk | hi | hms
    · exact ⟨by simpa [hmk] using hne, by simp [hp]⟩
    · exact absurd rfl hi
    · exact ⟨hms, by simp [hp]⟩
  · rw [if_neg ht] at hne
    rw [Config.prog_after_ne (Ne.symm ht)] at hret
    exact ⟨hne, hret⟩

/-- Without overlap one job at a time is judging, and the increments since the last reset are its
own. -/
theorem judging_alone (tests : m.HasTests porblem_title n)
    (h : Reach (oneAtATime (fileName user_name porblem_title))
      (start user_name porblem_title body m) c) :
    ∀ k, Judging (fileName user_name porblem_title) c k →
      (∀ j, Judging (fileName user_name porblem_title) c j → j = k) ∧
      ∀ u ∈ counters (fileName user_name porblem_title) c.trace, u = .submission k := by
  refine h.induct (I := fun c => ∀ k, Judging (fileName user_name porblem_title) c k →
      (∀ j, Judging (fileName user_name porblem_title) c j → j = k) ∧
      ∀ u ∈ counters (fileName user_name porblem_title) c.trace, u = .submission k)
    (fun k hk => absurd rfl hk.1) ?_
  intro c t x o k r m' hr ih hok hp he
  obtain hmk | ⟨j, mk, rfl, hmk, hstep⟩ | ⟨j, i, rfl, hmk⟩ := step_mark tests hr hok hp he
  · intro i hi
    obtain ⟨hsame, hcounters⟩ := ih i (hi.before hp (.inl hmk))
    exact ⟨fun j hj => hsame j (hj.before hp (.inl hmk)), by simpa [counters, hmk] using hcounters⟩
  · by_cases hreset : marks (fileName user_name porblem_title) (own (.submission j) c.trace) = []
    · -- At a reset every other job has returned.
      rw [hreset] at hstep
      generalize hms : ([] : List Mark) = ms at hstep
      cases hstep with
      | reset =>
        obtain rfl := op_of_wrote hmk
        have honly : ∀ i, Judging (fileName user_name porblem_title)
            (c.after (.submission j) _ r k m') i → i = j := by
          intro i hi
          by_contra hij
          have hne : Thread.submission j ≠ .submission i := fun h => hij (by cases h; rfl)
          obtain ⟨hne', hret⟩ := hi.before hp (.inr (.inl hne))
          obtain ⟨e, he, het, heop⟩ :=
            mem_of_wrote ((submission_history tests hr i).reset_mem hne')
          have hdone := hok (by simp [hp]) e he heop (het ▸ hne.symm)
          rw [het, hret] at hdone
          exact absurd hdone (by simp)
        intro i hi
        rw [honly i hi]
        exact ⟨honly, by simp [counters, hmk]⟩
      | compare cs code hcs => exact absurd hms.symm (judged_ne_nil _ cs)
      | _ => cases hms
    · have hj : Judging (fileName user_name porblem_title) c j := ⟨hreset, by simp [hp]⟩
      intro i hi
      obtain ⟨hsame, hcounters⟩ := ih i (hi.before hp (.inr (.inr hreset)))
      refine ⟨fun i' hi' => hsame i' (hi'.before hp (.inr (.inr hreset))), ?_⟩
      have hji := hsame j hj
      generalize hms : marks (fileName user_name porblem_title)
        (own (.submission j) c.trace) = ms at hstep
      cases hstep with
      | reset => exact absurd hms hreset
      | count cs hcs =>
        rw [Config.trace_after]
        simpa [counters, hmk, hji] using hcounters
      | error code hcode => simp [counters, hmk]
      | _ => simpa [counters, hmk] using hcounters
  · intro k' hk'
    obtain ⟨hsame, hcounters⟩ := ih k' (hk'.before hp (.inr (.inl (by simp))))
    exact ⟨fun j' hj' => hsame j' (hj'.before hp (.inr (.inl (by simp)))),
      by simpa [counters, hmk] using hcounters⟩

theorem countedAlone_of_oneAtATime (tests : m.HasTests porblem_title n)
    (h : Reach (oneAtATime (fileName user_name porblem_title))
      (start user_name porblem_title body m) c) :
    Reach (countedAlone (fileName user_name porblem_title) n)
      (start user_name porblem_title body m) c := by
  refine h.weaken fun c t hr hok hnext _ u hu => ?_
  obtain ⟨k, hp⟩ := Prog.next?_eq_some.mp hnext
  obtain hmk | ⟨j, mk, rfl, hmk, hstep⟩ | ⟨j, i, rfl, hmk⟩ :=
    step_mark (x := (0 : Int)) tests hr hok hp rfl
  · cases hmk
  · have hne : marks (fileName user_name porblem_title) (own (.submission j) c.trace) ≠ [] := by
      cases hmk
      generalize marks (fileName user_name porblem_title) (own (.submission j) c.trace) = ms
        at hstep
      cases hstep
      simp
    exact (judging_alone tests hr j ⟨hne, by simp [hp]⟩).2 u hu
  · cases hmk

end Run

end OJJudge.Verdict
