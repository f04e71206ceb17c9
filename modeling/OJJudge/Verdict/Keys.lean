import OJJudge.Verdict.Histories

/-! What holds in every configuration of a run of the pair: the Redis value of a key is what the
trace leaves there, the tables of problems and tests stay, the recorded rows are the inserted ones,
and every thread's own history is one that its program allows. -/

namespace OJJudge.Verdict

open Concurrency

/-- The value that a mark leaves at a key with value `v`. -/
def Mark.after (key : String) (mk : Mark) (v : Option String) : Option String :=
  match mk with
  | .compared _ => v
  | .wrote k value => if k = key then some value else v
  | .counted k => if k = key then incrValue v else v
  | .deleted k => if k = key then none else v

/-- The value of a key after marks, newest first. -/
def value (key : String) (v : Option String) (ms : List Mark) : Option String :=
  ms.foldr (Mark.after key) v

@[simp] theorem value_nil (key : String) (v : Option String) : value key v [] = v := rfl

@[simp] theorem value_cons (key : String) (v : Option String) (mk : Mark) (ms : List Mark) :
    value key v (mk :: ms) = mk.after key (value key v ms) := rfl

theorem value_append (key : String) (v : Option String) (later earlier : List Mark) :
    value key v (later ++ earlier) = value key (value key v earlier) later :=
  List.foldr_append

theorem marks_cons (f : String) (e : Event effects) (h : List (Event effects)) :
    marks f (e :: h) = marks f [e] ++ marks f h := by
  simp only [marks, List.filterMap_cons, List.filterMap_nil]
  split <;> rfl

theorem marks_own_cons (f : String) (t u : Thread) (e : Event effects)
    (trace : List (Thread × Event effects)) :
    marks f (own t ((u, e) :: trace)) =
      if u = t then (mark f e).toList ++ marks f (own t trace) else marks f (own t trace) := by
  by_cases hu : u = t
  · subst hu
    rw [own_cons_same, if_pos rfl, marks_cons f e (own u trace)]
    cases hm : mark f e <;> simp [marks, hm]
  · rw [own_cons_ne hu, if_neg hu]

/-- The events of one thread give the value of a key that the other threads leave alone. -/
theorem value_own {f key : String} {t : Thread} {trace : List (Thread × Event effects)}
    (hother : ∀ e ∈ trace, e.1 ≠ t → ∀ v, value key v (marks f [e.2]) = v) (v : Option String) :
    value key v (marks f (trace.map Prod.snd)) = value key v (marks f (own t trace)) := by
  induction trace with
  | nil => rfl
  | cons e trace ih =>
    obtain ⟨u, e⟩ := e
    rw [List.map_cons, marks_cons, value_append, ih fun e' he' => hother e' (by simp [he'])]
    by_cases hu : u = t
    · subst hu
      rw [own_cons_same, marks_cons f e (own u trace), value_append]
    · rw [own_cons_ne hu]
      exact hother (u, e) (by simp) hu _

/-- The codes of comparisons, newest first. -/
def codes (ms : List Mark) : List Int :=
  ms.filterMap fun
    | .compared code => some code
    | _ => none

/-- The results of the comparisons of a history, newest first. -/
def compareCodes (h : List (Event effects)) : List Int :=
  h.filterMap fun
    | ⟨.file_cmp _ _, code⟩ => some code
    | _ => none

/-- The number of increments. -/
def counts (ms : List Mark) : Nat :=
  ms.countP fun
    | .counted _ => true
    | _ => false

theorem codes_marks (f : String) (h : List (Event effects)) :
    codes (marks f h) = compareCodes h := by
  rw [codes, marks, compareCodes, List.filterMap_filterMap]
  refine List.filterMap_congr fun e _ => ?_
  obtain ⟨o, r⟩ := e
  cases o with
  | set key value =>
    simp only [mark]
    split <;> rfl
  | _ => rfl

@[simp] theorem codes_nil : codes [] = [] := rfl

@[simp] theorem codes_compared (code : Int) (ms : List Mark) :
    codes (.compared code :: ms) = code :: codes ms := rfl

@[simp] theorem codes_wrote (key value : String) (ms : List Mark) :
    codes (.wrote key value :: ms) = codes ms := rfl

@[simp] theorem codes_counted (key : String) (ms : List Mark) :
    codes (.counted key :: ms) = codes ms := rfl

@[simp] theorem counts_nil : counts [] = 0 := rfl

@[simp] theorem counts_compared (code : Int) (ms : List Mark) :
    counts (.compared code :: ms) = counts ms := by simp [counts]

@[simp] theorem counts_wrote (key value : String) (ms : List Mark) :
    counts (.wrote key value :: ms) = counts ms := by simp [counts]

@[simp] theorem counts_deleted (key : String) (ms : List Mark) :
    counts (.deleted key :: ms) = counts ms := by simp [counts]

@[simp] theorem counts_counted (key : String) (ms : List Mark) :
    counts (.counted key :: ms) = counts ms + 1 := by simp [counts]

theorem marks_own_mono {f : String} {t : Thread} {mk : Mark} {trace : List (Thread × Event effects)}
    (e : Thread × Event effects) (h : mk ∈ marks f (own t trace)) :
    mk ∈ marks f (own t (e :: trace)) := by
  rw [marks_own_cons]
  split <;> simp [h]

theorem counts_own_mono (f : String) (t : Thread) (e : Thread × Event effects)
    (trace : List (Thread × Event effects)) :
    counts (marks f (own t trace)) ≤ counts (marks f (own t (e :: trace))) := by
  rw [marks_own_cons]
  split <;> simp [counts]

/-! ### The marks of a job -/

@[simp] theorem codes_judged (f : String) (cs : List Int) : codes (judged f cs) = cs := by
  induction cs with
  | nil => rfl
  | cons code cs ih =>
    rw [judged]
    split <;> simp [ih]

@[simp] theorem counts_judged (f : String) (cs : List Int) :
    counts (judged f cs) = cs.count 1 := by
  induction cs with
  | nil => rfl
  | cons code cs ih =>
    rw [judged]
    split
    · next h => simp [ih, h]
    · next h => simp [ih, h]

@[simp] theorem value_sum_judged (f : String) (v : Option String) (cs : List Int) :
    value (sumKey f) v (judged f cs) = some (cs.count 1).repr := by
  induction cs with
  | nil => simp [judged, Mark.after]; decide
  | cons code cs ih =>
    rw [judged]
    split
    · next h => simp [Mark.after, ih, h]
    · next h => simp [Mark.after, ih, h]

variable {f : String} {n : Nat} {ms : List Mark}

theorem Judged.codes_length (h : Judged f n ms) : (codes ms).length ≤ n := by
  cases h with
  | fresh => simp
  | judging cs h => simpa using h
  | compared cs code h => simpa using h
  | matched cs h => simpa using h
  | failed code h => simp

theorem Judged.counts_le (h : Judged f n ms) : counts ms ≤ (codes ms).count 1 := by
  cases h with
  | fresh => simp
  | judging cs h => simp
  | compared cs code h => simp [List.count_cons]
  | matched cs h => simp
  | failed code h => simp

theorem Judged.counts_le_tests (h : Judged f n ms) : counts ms ≤ n :=
  h.counts_le.trans (List.count_le_length.trans h.codes_length)

/-- A job that has counted `n` tests has matched them all. -/
theorem Judged.codes_eq (h : Judged f n ms) (hn : counts ms = n) : codes ms = List.replicate n 1 := by
  have hle := h.counts_le
  have hlen := h.codes_length
  have hcount : (codes ms).count 1 ≤ (codes ms).length := List.count_le_length
  have hall : (codes ms).count 1 = (codes ms).length := by omega
  rw [List.count_eq_length] at hall
  exact List.eq_replicate_iff.mpr ⟨by omega, fun code hc => (hall code hc).symm⟩

/-- The counter of a pair with one submission is the number of its increments. -/
theorem Judged.value_sum (h : Judged f n ms) (hpos : 0 < counts ms) (v : Option String) :
    value (sumKey f) v ms = some (counts ms).repr := by
  cases h with
  | fresh => simp at hpos
  | judging cs h => simp
  | compared cs code h => simp [Mark.after]
  | matched cs h => simp [Mark.after]
  | failed code h => simp at hpos

theorem reset_mem_judged (f : String) (cs : List Int) : .wrote (sumKey f) "0" ∈ judged f cs := by
  induction cs with
  | nil => simp [judged]
  | cons code cs ih =>
    rw [judged]
    split <;> simp [ih]

/-- The first mark of a job is the reset of the counter. -/
theorem Judged.reset_mem (h : Judged f n ms) (hms : ms ≠ []) : .wrote (sumKey f) "0" ∈ ms := by
  cases h with
  | fresh => exact absurd rfl hms
  | judging cs h => exact reset_mem_judged f cs
  | compared cs code h => simp [reset_mem_judged]
  | matched cs h => simp [reset_mem_judged]
  | failed code h => simp

theorem mem_of_wrote {key value : String} {t : Thread} {trace : List (Thread × Event effects)}
    (h : .wrote key value ∈ marks f (own t trace)) :
    ∃ e ∈ trace, e.1 = t ∧ e.2.op = .set key value := by
  obtain ⟨⟨o, r⟩, he, hmk⟩ := List.mem_filterMap.mp h
  exact ⟨(t, ⟨o, r⟩), mem_own.mp he, rfl, op_of_wrote hmk⟩

/-! ### Single effects -/

section Effect

variable {t : Thread} {o : Op} {x : Int} {m m' : Memory} {r : o.Res}

theorem exec_redis {key : String} (hkey : key ≠ judgeKey f) (h : exec t o x m = some (r, m')) :
    m'.redis key = value key (m.redis key) (marks f [⟨o, r⟩]) := by
  cases o with
  | set k value =>
    cases h
    by_cases hk : k = judgeKey f
    · simp [marks, mark, hk, Memory.setRedis, Function.update_of_ne hkey]
    · simp [marks, mark, hk, Memory.setRedis, Function.update_apply, Mark.after, eq_comm]
  | incr k =>
    cases h
    by_cases hk : key = k
    · subst hk
      simp [marks, mark, Memory.setRedis, Mark.after]
    · simp [marks, mark, Memory.setRedis, Mark.after, hk, Ne.symm hk]
  | del k =>
    cases h
    simp [marks, mark, Memory.setRedis, Function.update_apply, Mark.after, eq_comm]
  | query stmt =>
    cases stmt <;> cases h <;> rfl
  | lock =>
    simp only [exec] at h
    split at h <;> cases h
    rfl
  | _ => cases h; rfl

theorem exec_redis_quiet {key : String} (hkey : key ≠ judgeKey f) (hmark : mark f ⟨o, r⟩ = none)
    (h : exec t o x m = some (r, m')) : m'.redis key = m.redis key := by
  simp [exec_redis hkey h, marks, hmark]

theorem exec_redis_mark {key : String} {mk : Mark} (hkey : key ≠ judgeKey f)
    (hmark : mark f ⟨o, r⟩ = some mk) (h : exec t o x m = some (r, m')) :
    m'.redis key = mk.after key (m.redis key) := by
  simp [exec_redis hkey h, marks, hmark]

theorem exec_tables (h : exec t o x m = some (r, m')) :
    m'.problems_cpp = m.problems_cpp ∧ m'.test_cases = m.test_cases := by
  cases o with
  | query stmt => cases stmt <;> cases h <;> exact ⟨rfl, rfl⟩
  | lock =>
    simp only [exec] at h
    split at h <;> cases h
    exact ⟨rfl, rfl⟩
  | _ => cases h; exact ⟨rfl, rfl⟩

/-- The row that an event inserts. -/
def inserted (e : Event effects) : Option Submission :=
  match e.op with
  | .query (.insertSubmission user_id problem_id result) => some ⟨user_id, problem_id, result⟩
  | _ => none

theorem eq_of_inserted {e : Event effects} {row : Submission} (h : inserted e = some row) :
    ∃ ack, e = ⟨.query (.insertSubmission row.user_id row.problem_id row.result), ack⟩ := by
  obtain ⟨o, ack⟩ := e
  unfold inserted at h
  split at h
  · next heq =>
    dsimp only at heq
    subst heq
    cases h
    exact ⟨ack, rfl⟩
  · cases h

theorem exec_submissions (h : exec t o x m = some (r, m')) :
    m'.submissions = m.submissions ++ (inserted ⟨o, r⟩).toList := by
  cases o with
  | query stmt => cases stmt <;> cases h <;> simp [inserted]
  | lock =>
    simp only [exec] at h
    split at h <;> cases h
    simp [inserted]
  | _ => cases h; simp [inserted, Memory.setRedis]

theorem exec_get {key : String} {v : Option String}
    (h : machine.exec t (.get key) x m = some (v, m')) : m.redis key = v := by
  cases h
  rfl

end Effect

/-- The problem has `n` tests: the `test_num` of its row and the number of its rows in `test_cases`
are `n`. -/
structure Memory.HasTests (m : Memory) (porblem_title : String) (n : Nat) : Prop where
  test_num : (m.rows (.selectTestNum porblem_title)).head? = some [toString n]
  test_cases : (m.rows (.selectTestCases porblem_title)).length = n

theorem Memory.hasTests_ofProblem (title : String) (tests : List (String × String)) :
    (Memory.ofProblem title tests).HasTests title tests.length where
  test_num := by simp [Memory.rows, Memory.ofProblem]
  test_cases := by
    have hall : (tests.map fun test => (⟨title, test.1, test.2⟩ : TestCase)).filter
        (·.problem_id = title) = tests.map fun test => ⟨title, test.1, test.2⟩ := by
      rw [List.filter_eq_self]
      simp only [List.mem_map, decide_eq_true_eq]
      rintro _ ⟨test, -, rfl⟩
      rfl
    simp only [Memory.rows, Memory.ofProblem, hall, List.length_map]

/-! ### Runs -/

section Run

variable {ok : Config machine → Thread → Prop} {user_name porblem_title : String}
  {body : Nat → Bytes} {m : Memory} {c : Config machine}

theorem reach_redis (h : Reach ok (start user_name porblem_title body m) c) {key : String}
    (hkey : key ≠ judgeKey f) :
    c.mem.redis key = value key (m.redis key) (marks f (c.trace.map Prod.snd)) := by
  refine h.induct (I := fun c : Config machine => c.mem.redis key =
    value key (m.redis key) (marks f (c.trace.map Prod.snd))) rfl ?_
  intro c t x o k r m' _ ih _ _ he
  rw [Config.mem_after, exec_redis hkey he, ih, Config.trace_after, List.map_cons,
    marks_cons f ⟨o, r⟩ (c.trace.map Prod.snd), value_append]

theorem reach_tables (h : Reach ok (start user_name porblem_title body m) c) :
    c.mem.problems_cpp = m.problems_cpp ∧ c.mem.test_cases = m.test_cases := by
  refine h.induct (I := fun c : Config machine => c.mem.problems_cpp = m.problems_cpp ∧
    c.mem.test_cases = m.test_cases) ⟨rfl, rfl⟩ ?_
  intro c t x o k r m' _ ih _ _ he
  obtain ⟨hp, ht⟩ := exec_tables he
  exact ⟨hp.trans ih.1, ht.trans ih.2⟩

/-- The rows recorded in a run, in order. -/
def recorded (trace : List (Thread × Event effects)) : List Submission :=
  (trace.filterMap fun e => inserted e.2).reverse

theorem reach_submissions (h : Reach ok (start user_name porblem_title body m) c) :
    c.mem.submissions = m.submissions ++ recorded c.trace := by
  refine h.induct (I := fun c : Config machine => c.mem.submissions = m.submissions ++ recorded c.trace)
    (by simp [start, recorded]) ?_
  intro c t x o k r m' _ ih _ _ he
  rw [Config.mem_after, exec_submissions he, ih, Config.trace_after, recorded, recorded,
    List.filterMap_cons]
  cases inserted ⟨o, r⟩ <;> simp

theorem HasTests.answers (tests : m.HasTests porblem_title n)
    (h : Reach ok (start user_name porblem_title body m) c) {t : Thread} {o : Op} {x : Int}
    {r : o.Res} {m' : Memory} (he : exec t o x c.mem = some (r, m')) :
    Answers porblem_title n o r := by
  obtain ⟨hp, ht⟩ := reach_tables h
  cases o with
  | query stmt =>
    cases stmt with
    | selectTestNum title =>
      rintro rfl
      cases he
      simpa [Memory.rows, hp] using tests.test_num
    | selectTestCases title =>
      rintro rfl
      cases he
      simpa [Memory.rows, ht] using tests.test_cases
    | _ => trivial
  | _ => trivial

/-- What a submission has done in a run. -/
theorem submission_history (tests : m.HasTests porblem_title n)
    (h : Reach ok (start user_name porblem_title body m) c) (k : Nat) :
    Judged (fileName user_name porblem_title) n
      (marks (fileName user_name porblem_title) (own (.submission k) c.trace)) :=
  (h.history (.submission k) rfl (runCpp_wp OJ_Judge user_name porblem_title (body k) n)
    fun _ _ _ _ _ _ hr _ he => HasTests.answers tests hr he).now

/-- A job that has matched all `n` tests compares no more. -/
theorem matched_later (tests : m.HasTests porblem_title n)
    (h : Reach ok (start user_name porblem_title body m) c) {k : Nat}
    {later earlier : List (Thread × Event effects)} (htr : c.trace = later ++ earlier)
    (hmatched : compareCodes (own (.submission k) earlier) = List.replicate n 1) :
    compareCodes (own (.submission k) c.trace) = List.replicate n 1 := by
  have hlen := (submission_history tests h k).codes_length
  rw [codes_marks, htr, own_append] at hlen
  rw [htr, own_append]
  simp only [compareCodes, List.filterMap_append, List.length_append] at hlen hmatched ⊢
  rw [hmatched, List.length_replicate] at hlen
  rw [hmatched, List.append_left_eq_self]
  exact List.length_eq_zero_iff.mp (by omega)

/-- What a poll has done in a run. -/
theorem poll_history (tests : m.HasTests porblem_title n)
    (h : Reach ok (start user_name porblem_title body m) c) (k : Nat) :
    Polled user_name porblem_title n (own (.poll k) c.trace) :=
  (h.history (.poll k) rfl (runState_wp user_name porblem_title n)
    fun _ _ _ _ _ _ hr _ he => HasTests.answers tests hr he).now

end Run

end OJJudge.Verdict
