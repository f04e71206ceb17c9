import OJJudge.Verdict.Keys

/-! The verdict of one submission that is judged and then polled, for every outcome of its compile
command, of the commands of each test and of each comparison. -/

namespace OJJudge.Verdict

open Concurrency

/-- The statuses of the commands of one test iteration. -/
structure TestStatus where
  init : Int32
  cpRunner : Int32
  cpInput : Int32
  run : Int32
  cpOutput : Int32
  cleanup : Int32
  deriving DecidableEq

namespace TestStatus

def toList (s : TestStatus) : List Int32 :=
  [s.init, s.cpRunner, s.cpInput, s.run, s.cpOutput, s.cleanup]

/-- Every command of the iteration has succeeded. -/
def Succeeded (s : TestStatus) : Prop := ∀ status ∈ s.toList, status = 0

instance (s : TestStatus) : Decidable s.Succeeded := by
  unfold Succeeded
  infer_instance

end TestStatus

/-- The outcome of a job: the status of its compile command, and for each test the statuses of its
commands and the code of its comparison. -/
structure Outcome where
  compile : Int32
  tests : List (TestStatus × Int)

/-- A memory together with the outcomes to come and the answers given. -/
structure Env where
  mem : Memory
  statuses : List Int32
  codes : List Int
  answers : List StateBody

/-- One effect of thread `t`.  Removals come after the outcomes and their statuses are not used. -/
def Env.exec (t : Thread) (o : Op) (s : Env) : Option (o.Res × Env) :=
  match o with
  | .spawn _ => some (s.statuses.headD 0, { s with statuses := s.statuses.tail })
  | .file_cmp _ _ => some (s.codes.headD 0, { s with codes := s.codes.tail })
  | .append_output_body body => some ((), { s with answers := s.answers ++ [body] })
  | o => (Verdict.exec t o 0 s.mem).map fun e => (e.1, { s with mem := e.2 })

/-- The environment in which a job will have the outcome `o`. -/
def Outcome.env (o : Outcome) (m : Memory) : Env where
  mem := m
  statuses := o.compile :: o.tests.flatMap fun test => test.1.toList
  codes := o.tests.map (·.2)
  answers := []

/-- The submission runs to its end, and then a poll. -/
def judgeThenPoll (user_name porblem_title : String) (body : Bytes) (s : Env) : Option Env := do
  let judged ← (runCpp OJ_Judge user_name porblem_title body).runs (Env.exec (.submission 0)) s
  let polled ← (runState user_name porblem_title).runs (Env.exec (.poll 0)) judged.2
  return polled.2

/-- The code that `cpp_runner` documents for test `i`: `1` for a match, `-1` for a mismatch, `-2`
when the compilation fails and `-3` when a command of the test fails. -/
def Outcome.documented (o : Outcome) (test : TestStatus × Int) : String :=
  if o.compile ≠ 0 then "-2"
  else if ¬test.1.Succeeded then "-3"
  else if test.2 = 1 then "1"
  else "-1"

/-- The poll has reported the documented code of every test, none of them `0`, and has recorded one
row, which is `Pass` when every test has matched. -/
structure FinishedVerdict (user_name porblem_title : String) (o : Outcome) (m : Memory) (s : Env) :
    Prop where
  reported : ∃ pass_num, s.answers =
    [⟨toString o.tests.length, pass_num, o.tests.map o.documented⟩]
  decided : ∀ answer ∈ s.answers, "0" ∉ answer.problem
  recorded : s.mem.submissions = m.submissions ++ [⟨user_name, porblem_title,
    if ∀ test ∈ o.tests, o.documented test = "1" then "Pass" else "Unpass"⟩]

/-! ### The job -/

section Job

variable {t : Thread} {s : Env} {task : Runner_task} {f : String}

/-- The sum of the statuses after one more iteration. -/
def addStatus (status : Int32) (test : TestStatus) : Int32 :=
  status + test.init + test.cpRunner + test.cpInput + test.run + test.cpOutput + test.cleanup + 0

theorem runTest_runs (i : Nat) (input : String) (status : Int32) {test : TestStatus}
    {rest : List Int32} (hlock : s.mem.lock = none) (hs : s.statuses = test.toList ++ rest) :
    (runTest OJ_Judge task i input status).runs (Env.exec t) s =
      some (addStatus status test, { s with statuses := rest }) := by
  obtain ⟨⟨redis, lock, problems, cases, rows⟩, statuses, codes, answers⟩ := s
  simp only at hlock hs
  subst hlock hs
  simp [runTest, system_spawn_cmd, Prog.runs_op, Env.exec, exec, addStatus, TestStatus.toList]

theorem runTests_runs (vec : List (String × String)) (tests : List TestStatus) (i : Nat)
    (status : Int32) (rest : List Int32) (hlen : vec.length = tests.length)
    (hlock : s.mem.lock = none)
    (hs : s.statuses = (tests.flatMap fun test => test.toList) ++ rest) :
    (runTests OJ_Judge task i vec status).runs (Env.exec t) s =
      some (tests.foldl addStatus status, { s with statuses := rest }) := by
  induction vec generalizing tests i status s with
  | nil =>
    obtain rfl : tests = [] := List.eq_nil_of_length_eq_zero hlen.symm
    simp only [List.flatMap_nil, List.nil_append] at hs
    simp [runTests, ← hs]
  | cons pair vec ih =>
    obtain ⟨test, tests, rfl⟩ := List.exists_cons_of_length_eq_add_one hlen.symm
    rw [List.flatMap_cons, List.append_assoc] at hs
    rw [runTests, Prog.runs_bind, runTest_runs i pair.1 status hlock hs, Option.bind_some]
    exact ih tests (i + 1) _ (by simpa using hlen) hlock rfl

/-- The verdict keys after the comparison of test `i` with the given code. -/
def compareKey (f : String) (i : Nat) (code : Int) (m : Memory) : Memory :=
  if code = 1 then
    (m.setRedis (testKey f i) (some "1")).setRedis (sumKey f) (incrValue (m.redis (sumKey f)))
  else m.setRedis (testKey f i) (some "-1")

/-- The verdict keys after comparisons from test `i` on. -/
def compareKeys (f : String) : Nat → List Int → Memory → Memory
  | _, [], m => m
  | i, code :: codes, m => compareKeys f (i + 1) codes (compareKey f i code m)

theorem compareTest_runs (i : Nat) (answer : String) {code : Int} {rest : List Int}
    (hs : s.codes = code :: rest) :
    (compareTest OJ_Judge task i answer).runs (Env.exec t) s =
      some ((), { s with mem := compareKey task.file_name i code s.mem, codes := rest }) := by
  simp only [compareTest, file_cmp, redis_set_field, redis_incr, redis_expire, effect_eq,
    Prog.op_bind, Prog.ret_bind, Prog.pure_eq]
  rw [Prog.runs_op]
  simp only [Env.exec, hs, List.headD_cons, List.tail_cons, Option.bind_some]
  by_cases hcode : code = 1
  · simp [hcode, Prog.runs_op, Env.exec, exec, compareKey, Memory.setRedis,
      Function.update_of_ne]
  · simp [hcode, Prog.runs_op, Env.exec, exec, compareKey]

theorem compareTests_runs (vec : List (String × String)) (codes : List Int) (i : Nat)
    (rest : List Int) (hlen : vec.length = codes.length) (hs : s.codes = codes ++ rest) :
    (compareTests OJ_Judge task i vec).runs (Env.exec t) s =
      some ((), { s with mem := compareKeys task.file_name i codes s.mem, codes := rest }) := by
  induction vec generalizing codes i s with
  | nil =>
    obtain rfl : codes = [] := List.eq_nil_of_length_eq_zero hlen.symm
    simp only [List.nil_append] at hs
    simp [compareTests, compareKeys, ← hs]
  | cons pair vec ih =>
    obtain ⟨code, codes, rfl⟩ := List.exists_cons_of_length_eq_add_one hlen.symm
    rw [compareTests, Prog.runs_bind, compareTest_runs i pair.2 hs, Option.bind_some]
    exact ih codes (i + 1) (by simpa using hlen) rfl

theorem removeFiles_runs : (removeFiles OJ_Judge task).runs (Env.exec t) s =
    some ((), { s with statuses := s.statuses.tail.tail }) := by
  simp [removeFiles, system_spawn_cmd, Prog.runs_op, Env.exec]

theorem reportError_runs (code : String) : (reportError f code).runs (Env.exec t) s =
    some ((), { s with mem := s.mem.setRedis (sumKey f) (some code) }) := by
  simp [reportError, redis_set_field, redis_expire, Prog.runs_op, Env.exec, exec]

/-- The verdict keys after a job with outcome `o`. -/
def Outcome.keys (o : Outcome) (f : String) (m : Memory) : Memory :=
  if o.compile = 0 then
    if (o.tests.map (·.1)).foldl addStatus 0 = 0 then compareKeys f 0 (o.tests.map (·.2)) m
    else m.setRedis (sumKey f) (some "-3")
  else m.setRedis (sumKey f) (some "-2")

/-- A job with outcome `o` returns, with the verdict keys of that outcome. -/
theorem cpp_runner_runs (task : Runner_task) {o : Outcome} {m : Memory} (hlock : m.lock = none)
    (hlen : task.test_vec.length = o.tests.length) :
    ∃ s, (cpp_runner OJ_Judge task).runs (Env.exec t) (o.env m) = some ((), s) ∧
      s.mem = o.keys task.file_name m ∧ s.answers = [] := by
  have hcompile : (system_spawn_cmd (.gpp (cppPath task.path task.file_name)
      (runPath OJ_Judge task.file_name))).runs (Env.exec t) (o.env m) =
      some (o.compile, { o.env m with statuses := (o.env m).statuses.tail }) := by
    simp [system_spawn_cmd, Prog.runs_op, Env.exec, Outcome.env]
  rw [cpp_runner, Prog.runs_bind, hcompile, Option.bind_some]
  dsimp only
  by_cases hc : o.compile = 0
  · rw [if_pos hc, Prog.runs_bind, runTests_runs task.test_vec (o.tests.map (·.1)) 0 0 []
      (by simpa using hlen) hlock (by simp [Outcome.env, List.flatMap_map]), Option.bind_some]
    dsimp only
    by_cases hr : (o.tests.map (·.1)).foldl addStatus 0 = 0
    · rw [if_pos hr, Prog.runs_bind, compareTests_runs task.test_vec (o.tests.map (·.2)) 0 []
        (by simpa using hlen) (by simp [Outcome.env]), Option.bind_some, removeFiles_runs]
      exact ⟨_, rfl, by simp [Outcome.keys, hc, hr, Outcome.env], rfl⟩
    · rw [if_neg hr, Prog.runs_bind, reportError_runs, Option.bind_some, removeFiles_runs]
      exact ⟨_, rfl, by simp [Outcome.keys, hc, hr, Outcome.env], rfl⟩
  · rw [if_neg hc, Prog.runs_bind, removeFiles_runs, Option.bind_some, reportError_runs]
    exact ⟨_, rfl, by simp [Outcome.keys, hc, Outcome.env], rfl⟩

end Job

/-! ### The submission and the poll -/

section Poll

variable {user_name porblem_title : String} {m : Memory} {n : Nat} {o : Outcome} {t : Thread} {s : Env}

theorem problem_exists (tests : m.HasTests porblem_title n) :
    0 < (m.rows (.selectProblemId porblem_title)).length := by
  have hnum := tests.test_num
  simp only [Memory.rows, List.length_map] at hnum ⊢
  cases hrows : m.problems_cpp.filter (·.title = porblem_title) with
  | nil => simp [hrows] at hnum
  | cons row rows => simp

/-- The keys after the resets of `runCpp`. -/
def resetKeys (f : String) (m : Memory) : Memory :=
  (m.setRedis (judgeKey f) (some "0")).setRedis (sumKey f) (some "0")

theorem runCpp_runs (user_name : String) (body : Bytes) (hn : 0 < o.tests.length)
    (tests : m.HasTests porblem_title o.tests.length) (hlock : m.lock = none) :
    ∃ s, (runCpp OJ_Judge user_name porblem_title body).runs (Env.exec t) (o.env m) =
        some ((), s) ∧
      s.mem = o.keys (fileName user_name porblem_title)
        (resetKeys (fileName user_name porblem_title) m) ∧ s.answers = [] := by
  have hcases : ((m.rows (.selectTestCases porblem_title)).map
      fun cow => (cow.getD 0 "", cow.getD 1 "")).length = o.tests.length := by
    simpa using tests.test_cases
  obtain ⟨s, hrun, hmem, hanswers⟩ := cpp_runner_runs (t := t)
    ⟨OJ_Judge.waiting_judge, fileName user_name porblem_title, porblem_title,
      (m.rows (.selectTestCases porblem_title)).length,
      (m.rows (.selectTestCases porblem_title)).map fun cow => (cow.getD 0 "", cow.getD 1 ""),
      by simp⟩
    (m := resetKeys (fileName user_name porblem_title) m) hlock hcases
  refine ⟨s, ?_, hmem, hanswers⟩
  have hpush : (m.rows (.selectTestCases porblem_title)).length ≠ 0 := by
    rw [tests.test_cases]
    omega
  simp only [runCpp, effect_eq, Prog.op_bind, Prog.ret_bind, Prog.runs_op, Env.exec, exec,
    Option.map_some, Option.bind_some, Outcome.env]
  rw [if_pos (problem_exists tests)]
  simp only [Prog.runs_op, Env.exec, exec, Option.map_some, Option.bind_some,
    Memory.rows_setRedis, TaskPush, if_neg hpush, effect_eq, Prog.op_bind, Prog.ret_bind]
  exact hrun

theorem readCodes_runs (f : String) (k : Nat) (codes : List String) :
    (readCodes f k codes).runs (Env.exec t) s = some (codes ++ (List.range' codes.length k).map
      fun i => reported (s.mem.redis (testKey f i)), s) := by
  induction k generalizing codes with
  | zero => simp [readCodes]
  | succ k ih =>
    simp only [readCodes, my_sync_check_token, effect_eq, Prog.op_bind, Prog.ret_bind,
      Prog.pure_eq, Prog.runs_op, Env.exec, exec, Option.map_some, Option.bind_some]
    rw [ih]
    simp [List.range'_succ, reported]

theorem deleteKeys_runs (f : String) (i k : Nat) :
    ∃ redis, (deleteKeys f i k).runs (Env.exec t) s =
      some ((), { s with mem := { s.mem with redis := redis } }) := by
  induction k generalizing i s with
  | zero => exact ⟨s.mem.redis, rfl⟩
  | succ k ih => exact ih (s := { s with mem := s.mem.setRedis (testKey f i) none }) (i + 1)

/-- The codes that a poll reports. -/
def pollCodes (f : String) (n : Nat) (m : Memory) : List String :=
  (List.range n).map fun i => reported (m.redis (testKey f i))

theorem runState_runs (user_name : String) (hn : n ≤ 2147483647) (tests : s.mem.HasTests porblem_title n) :
    ∃ s', (runState user_name porblem_title).runs (Env.exec t) s = some ((), s') ∧
      s'.answers = s.answers ++
        [⟨toString n, (s.mem.redis (sumKey (fileName user_name porblem_title))).getD "",
          pollCodes (fileName user_name porblem_title) n s.mem⟩] ∧
      s'.mem.submissions = s.mem.submissions ++
        if "0" ∈ pollCodes (fileName user_name porblem_title) n s.mem then []
        else [⟨user_name, porblem_title,
          result n (s.mem.redis (sumKey (fileName user_name porblem_title)))⟩] := by
  obtain ⟨rest, hrows⟩ := List.head?_eq_some_iff.mp tests.test_num
  simp only [runState, effect_eq, Prog.op_bind, Prog.ret_bind, Prog.runs_op, Env.exec, exec,
    Option.map_some, Option.bind_some, hrows, my_sync_check_token, Prog.pure_eq,
    List.getD_cons_zero, stoi_toString, if_pos hn, Int.toNat_natCast, Prog.runs_bind,
    readCodes_runs, List.nil_append, List.length_nil, ← List.range_eq_range']
  have hcodes : (List.range n).map (fun i => reported (s.mem.redis
      (testKey (fileName user_name porblem_title) i))) =
    pollCodes (fileName user_name porblem_title) n s.mem := rfl
  rw [hcodes]
  by_cases hzero : "0" ∈ pollCodes (fileName user_name porblem_title) n s.mem
  · rw [if_neg (by rwa [List.count_eq_zero, not_not]), if_pos hzero]
    exact ⟨_, rfl, rfl, by simp⟩
  · rw [if_pos (List.count_eq_zero.mpr hzero), if_neg hzero, Prog.runs_op]
    obtain ⟨redis, hdel⟩ := deleteKeys_runs (t := t)
      (s := { s with
        mem := { s.mem with submissions := s.mem.submissions ++ [⟨user_name, porblem_title,
          result n (s.mem.redis (sumKey (fileName user_name porblem_title)))⟩] }
        answers := s.answers ++
          [⟨toString n, (s.mem.redis (sumKey (fileName user_name porblem_title))).getD "",
            pollCodes (fileName user_name porblem_title) n s.mem⟩] })
      (fileName user_name porblem_title) 0 n
    exact ⟨_, hdel, rfl, rfl⟩

/-- `std::stoi` throws on a number of tests that does not fit `int`. -/
theorem runState_throws (hn : 2147483647 < n) (tests : s.mem.HasTests porblem_title n) :
    (runState user_name porblem_title).runs (Env.exec t) s = some ((), s) := by
  obtain ⟨rest, hrows⟩ := List.head?_eq_some_iff.mp tests.test_num
  simp only [runState, effect_eq, Prog.op_bind, Prog.ret_bind, Prog.runs_op, Env.exec, exec,
    Option.map_some, Option.bind_some, hrows, my_sync_check_token, Prog.pure_eq,
    List.getD_cons_zero, stoi_toString, if_neg (Nat.not_le.mpr hn), Prog.runs_ret]

end Poll

/-! ### The keys after the job -/

section Keys

variable {f : String} {m : Memory}

/-- The per-test value of a comparison code. -/
def testValue (code : Int) : String := if code = 1 then "1" else "-1"

theorem compareKey_testKey (i j : Nat) (code : Int) :
    (compareKey f i code m).redis (testKey f j) =
      if i = j then some (testValue code) else m.redis (testKey f j) := by
  unfold compareKey testValue
  split <;> simp [Memory.setRedis, Function.update_apply, eq_comm]

theorem compareKey_sumKey (i : Nat) (code : Int) {k : Nat}
    (hsum : m.redis (sumKey f) = some k.repr) :
    (compareKey f i code m).redis (sumKey f) = some (k + if code = 1 then 1 else 0).repr := by
  unfold compareKey
  split <;> simp [Memory.setRedis, hsum]

/-- Comparisons keep the keys of earlier tests. -/
theorem compareKeys_of_lt {i j : Nat} (h : j < i) (codes : List Int) :
    (compareKeys f i codes m).redis (testKey f j) = m.redis (testKey f j) := by
  induction codes generalizing i m with
  | nil => rfl
  | cons code codes ih =>
    rw [compareKeys, ih (by omega), compareKey_testKey, if_neg (by omega)]

theorem compareKeys_testKeys (i : Nat) (codes : List Int) :
    (List.range' i codes.length).map (fun j => (compareKeys f i codes m).redis (testKey f j)) =
      codes.map fun code => some (testValue code) := by
  induction codes generalizing i m with
  | nil => rfl
  | cons code codes ih =>
    rw [List.length_cons, List.range'_succ, List.map_cons, List.map_cons, compareKeys, ih,
      compareKeys_of_lt (by omega), compareKey_testKey, if_pos rfl]

theorem compareKeys_sumKey (i : Nat) (codes : List Int) {k : Nat}
    (hsum : m.redis (sumKey f) = some k.repr) :
    (compareKeys f i codes m).redis (sumKey f) = some (k + codes.count 1).repr := by
  induction codes generalizing i m k with
  | nil => simpa [compareKeys] using hsum
  | cons code codes ih =>
    rw [compareKeys, ih (i + 1) (compareKey_sumKey i code hsum), List.count_cons]
    congr 2
    simp only [beq_iff_eq]
    omega

/-- A job changes Redis only. -/
theorem compareKeys_frame (i : Nat) (codes : List Int) :
    ∃ redis, compareKeys f i codes m = { m with redis := redis } := by
  induction codes generalizing i m with
  | nil => exact ⟨m.redis, rfl⟩
  | cons code codes ih =>
    obtain ⟨redis, hredis⟩ := ih (m := compareKey f i code m) (i + 1)
    refine ⟨redis, ?_⟩
    rw [compareKeys, hredis, compareKey]
    split <;> rfl

theorem Outcome.keys_frame (o : Outcome) : ∃ redis, o.keys f m = { m with redis := redis } := by
  unfold Outcome.keys
  split
  · split
    · exact compareKeys_frame 0 _
    · exact ⟨_, rfl⟩
  · exact ⟨_, rfl⟩

end Keys

/-! ### The verdict -/

section Verdict

variable {user_name porblem_title : String} {m : Memory} {o : Outcome}

/-- Every command of the job has succeeded. -/
def Outcome.Succeeded (o : Outcome) : Prop :=
  o.compile = 0 ∧ ∀ test ∈ o.tests, test.1.Succeeded

theorem addStatus_of_succeeded {test : TestStatus} (h : test.Succeeded) (status : Int32) :
    addStatus status test = status := by
  simp only [TestStatus.Succeeded, TestStatus.toList, List.mem_cons, List.not_mem_nil, or_false,
    forall_eq_or_imp, forall_eq] at h
  obtain ⟨h1, h2, h3, h4, h5, h6⟩ := h
  simp [addStatus, h1, h2, h3, h4, h5, h6]

theorem foldl_addStatus {tests : List TestStatus} (h : ∀ test ∈ tests, test.Succeeded) :
    tests.foldl addStatus 0 = 0 := by
  induction tests with
  | nil => rfl
  | cons test tests ih =>
    rw [List.foldl_cons, addStatus_of_succeeded (h test (by simp))]
    exact ih fun test ht => h test (by simp [ht])

/-- The codes that a poll reports after comparisons. -/
theorem pollCodes_compareKeys (f : String) (m : Memory) (codes : List Int) :
    pollCodes f codes.length (compareKeys f 0 codes m) = codes.map testValue := by
  have hreported : ∀ code, reported (some (testValue code)) = testValue code := by
    intro code
    unfold testValue
    split <;> decide
  have hmap := congrArg (List.map reported) (compareKeys_testKeys (f := f) (m := m) 0 codes)
  rw [List.map_map, List.map_map] at hmap
  rw [pollCodes, List.range_eq_range']
  exact hmap.trans (List.map_congr_left fun code _ => hreported code)

/-- Without the per-test keys a poll reports every test undecided. -/
theorem zero_mem_pollCodes {f : String} {n : Nat} (hn : 0 < n)
    (h : m.redis (testKey f 0) = none) : "0" ∈ pollCodes f n m := by
  simp only [pollCodes, List.mem_map, List.mem_range]
  exact ⟨0, hn, by simp [h, reported]⟩

/-- The verdict of a job whose commands add up to success. -/
theorem keys_of_total (hc : o.compile = 0)
    (hr : (o.tests.map (·.1)).foldl addStatus 0 = 0) (f : String) :
    o.keys f m = compareKeys f 0 (o.tests.map (·.2)) m := by
  rw [Outcome.keys, if_pos hc, if_pos hr]

/-- A job that reports an error leaves the per-test keys alone. -/
theorem keys_of_error (h : ¬(o.compile = 0 ∧ (o.tests.map (·.1)).foldl addStatus 0 = 0))
    (f : String) (i : Nat) : (o.keys f m).redis (testKey f i) = m.redis (testKey f i) := by
  unfold Outcome.keys
  split
  · next hc =>
    rw [if_neg fun hr => h ⟨hc, hr⟩]
    simp [Memory.setRedis]
  · simp [Memory.setRedis]

theorem hasTests_keys {f : String} {n : Nat} (tests : m.HasTests porblem_title n) :
    (o.keys f (resetKeys f m)).HasTests porblem_title n := by
  obtain ⟨redis, hkeys⟩ := Outcome.keys_frame (f := f) (m := resetKeys f m) o
  rw [hkeys]
  exact ⟨tests.test_num, tests.test_cases⟩

theorem submissions_keys (f : String) : (o.keys f (resetKeys f m)).submissions = m.submissions := by
  obtain ⟨redis, hkeys⟩ := Outcome.keys_frame (f := f) (m := resetKeys f m) o
  rw [hkeys]
  rfl

theorem documented_of_succeeded (h : o.Succeeded) {test : TestStatus × Int} (ht : test ∈ o.tests) :
    o.documented test = testValue test.2 := by
  simp [Outcome.documented, testValue, h.1, h.2 test ht]

theorem testValue_eq_one (code : Int) : testValue code = "1" ↔ code = 1 := by
  unfold testValue
  split <;> simp_all

theorem testValue_ne_zero (code : Int) : testValue code ≠ "0" := by
  unfold testValue
  split <;> decide

/-- The poll records `Pass` when the counter holds as many matches as there are tests. -/
theorem result_count (codes : List Int) :
    result codes.length (some (codes.count 1).repr) =
      if ∀ code ∈ codes, code = 1 then "Pass" else "Unpass" := by
  have hiff : toString codes.length = (codes.count 1).repr ↔ ∀ code ∈ codes, code = 1 := by
    rw [Nat.toString_eq_repr, Nat.repr_inj, eq_comm, List.count_eq_length]
    exact forall₂_congr fun code _ => eq_comm
  simp only [result, Option.getD_some, hiff]

/-- The verdict after a job whose statuses add up to zero: it is finished when none of its commands
has failed. -/
theorem finished_iff_of_total {s : Env} (hc : o.compile = 0)
    (hanswers : ∃ pass_num, s.answers =
      [⟨toString o.tests.length, pass_num, (o.tests.map (·.2)).map testValue⟩])
    (hrows : s.mem.submissions = m.submissions ++ [⟨user_name, porblem_title,
      result o.tests.length (some ((o.tests.map (·.2)).count 1).repr)⟩]) :
    FinishedVerdict user_name porblem_title o m s ↔ o.Succeeded := by
  obtain ⟨pass_num, hanswers⟩ := hanswers
  constructor
  · intro h
    refine ⟨hc, fun test ht => ?_⟩
    obtain ⟨pass_num', hreported⟩ := h.reported
    rw [hanswers, List.map_map] at hreported
    simp only [List.cons.injEq, StateBody.mk.injEq, and_true, true_and] at hreported
    have hcode := List.map_inj_left.mp hreported.2 test ht
    by_contra hfail
    simp only [Function.comp_apply, Outcome.documented, hc, ne_eq, not_true_eq_false, if_false,
      hfail, not_false_eq_true, if_true, testValue] at hcode
    split at hcode <;> exact absurd hcode (by decide)
  · intro h
    have hcodes : o.tests.map o.documented = (o.tests.map (·.2)).map testValue := by
      rw [List.map_map]
      exact List.map_congr_left fun test ht => documented_of_succeeded h ht
    refine ⟨⟨pass_num, by rw [hanswers, hcodes]⟩, ?_, ?_⟩
    · rw [hanswers]
      simp [testValue_ne_zero]
    · have hall : (∀ test ∈ o.tests, o.documented test = "1") ↔
          ∀ code ∈ o.tests.map (·.2), code = 1 := by
        rw [List.forall_mem_map]
        refine forall₂_congr fun test ht => ?_
        rw [documented_of_succeeded h ht, testValue_eq_one]
      have hresult := result_count (o.tests.map (·.2))
      rw [List.length_map] at hresult
      simp only [hrows, hresult, hall]

/-- A submission that is judged and then polled gets a finished verdict exactly when its compile
command and all commands of its tests have succeeded, and the number of tests fits `int`. -/
theorem finished_verdict_iff (body : Bytes) (hn : 0 < o.tests.length)
    (tests : m.HasTests porblem_title o.tests.length) (hlock : m.lock = none)
    (hfresh : ∀ i < o.tests.length,
      m.redis (testKey (fileName user_name porblem_title) i) = none) :
    ∃ s, judgeThenPoll user_name porblem_title body (o.env m) = some s ∧
      (FinishedVerdict user_name porblem_title o m s ↔
        o.tests.length ≤ 2147483647 ∧ o.Succeeded) := by
  obtain ⟨s₁, hrun, hmem, hanswers⟩ :=
    runCpp_runs (t := .submission 0) user_name body hn tests hlock
  have htests : s₁.mem.HasTests porblem_title o.tests.length := hmem ▸ hasTests_keys tests
  simp only [judgeThenPoll, hrun, bind, Option.bind_some]
  by_cases hint : o.tests.length ≤ 2147483647
  · obtain ⟨s₂, hpoll, hanswers₂, hrows₂⟩ :=
      runState_runs (t := .poll 0) user_name hint htests
    rw [hpoll]
    refine ⟨s₂, rfl, ?_⟩
    rw [hanswers, List.nil_append] at hanswers₂
    by_cases hok : o.compile = 0 ∧ (o.tests.map (·.1)).foldl addStatus 0 = 0
    · have hcodes := pollCodes_compareKeys (fileName user_name porblem_title)
        (resetKeys (fileName user_name porblem_title) m) (o.tests.map (·.2))
      rw [List.length_map, ← keys_of_total hok.1 hok.2, ← hmem] at hcodes
      have hsum : s₁.mem.redis (sumKey (fileName user_name porblem_title)) =
          some (0 + (o.tests.map (·.2)).count 1).repr := by
        rw [hmem, keys_of_total hok.1 hok.2]
        exact compareKeys_sumKey 0 _ (by simp [resetKeys, Memory.setRedis]; decide)
      have hdecided : "0" ∉ (o.tests.map (·.2)).map testValue := by
        simp [testValue_ne_zero]
      rw [hcodes] at hanswers₂ hrows₂
      rw [if_neg hdecided, hsum, Nat.zero_add, hmem, submissions_keys] at hrows₂
      rw [finished_iff_of_total hok.1 ⟨_, hanswers₂⟩ hrows₂]
      simp [hint]
    · -- The per-test keys are absent after an error.
      have hzero : "0" ∈ pollCodes (fileName user_name porblem_title) o.tests.length s₁.mem := by
        refine zero_mem_pollCodes hn ?_
        rw [hmem, keys_of_error hok]
        simpa [resetKeys, Memory.setRedis, Function.update_of_ne,
          (judgeKey_ne_testKey (fileName user_name porblem_title) 0).symm] using hfresh 0 hn
      constructor
      · intro h
        exact absurd hzero (h.decided _ (hanswers₂ ▸ List.mem_singleton_self _))
      · rintro ⟨-, hs⟩
        refine absurd ⟨hs.1, foldl_addStatus ?_⟩ hok
        simpa using fun test code ht => hs.2 (test, code) ht
  · rw [runState_throws (Nat.lt_of_not_le hint) htests]
    refine ⟨s₁, rfl, ?_⟩
    constructor
    · intro h
      obtain ⟨pass_num, hreported⟩ := h.reported
      simp [hanswers] at hreported
    · rintro ⟨h, -⟩
      exact absurd h hint

/-- The effects of an environment are effects of the machine. -/
theorem machine_exec_of_env {t : Thread} {o : effects.Op} {s s' : Env} {r : effects.Res o}
    (h : Env.exec t o s = some (r, s')) :
    ∃ x, machine.exec t o x s.mem = some (r, s'.mem) := by
  cases o with
  | spawn cmd =>
    cases h
    exact ⟨(s.statuses.headD 0).toInt, by simp [exec]⟩
  | file_cmp path1 path2 =>
    cases h
    exact ⟨s.codes.headD 0, rfl⟩
  | append_output_body body =>
    cases h
    exact ⟨0, rfl⟩
  | _ =>
    simp only [Env.exec, Option.map_eq_some_iff] at h
    obtain ⟨e, he, heq⟩ := h
    cases heq
    exact ⟨0, he⟩

/-- The submission and the poll are a run of the machine. -/
theorem reach_of_judgeThenPoll {body : Bytes} {s s' : Env}
    (h : judgeThenPoll user_name porblem_title body s = some s') :
    ∃ c, Reach anyOrder (start user_name porblem_title (fun _ => body) s.mem) c ∧
      c.mem = s'.mem ∧ c.prog (.submission 0) = .ret () ∧ c.prog (.poll 0) = .ret () := by
  simp only [judgeThenPoll, bind, Option.bind_eq_some_iff] at h
  obtain ⟨⟨_, s₁⟩, hrun, ⟨_, s₂⟩, hpoll, hs⟩ := h
  cases hs
  have hstart : Reach anyOrder (start user_name porblem_title (fun _ => body) s.mem)
      (start user_name porblem_title (fun _ => body) s.mem) := .refl
  obtain ⟨c₁, hc₁, hret₁, hmem₁, hother₁⟩ := Reach.of_runs (t := .submission 0) Env.mem
    (fun _ _ _ _ he => machine_exec_of_env he) (fun _ _ => trivial) hstart rfl rfl hrun
  obtain ⟨c₂, hc₂, hret₂, hmem₂, hother₂⟩ := Reach.of_runs (t := .poll 0) Env.mem
    (fun _ _ _ _ he => machine_exec_of_env he) (fun _ _ => trivial) hc₁
    (hother₁ (.poll 0) (by simp)) hmem₁ hpoll
  exact ⟨c₂, hc₂, hmem₂, (hother₂ (.submission 0) (by simp)).trans hret₁, hret₂⟩

/-- One test whose commands succeed and whose output matches. -/
theorem finished_verdict_iff_one_test :
    ∃ s, judgeThenPoll "u" "p" [] ((Outcome.mk 0 [(⟨0, 0, 0, 0, 0, 0⟩, 1)]).env
        (Memory.ofProblem "p" [("1.in", "1.out")])) = some s ∧
      (FinishedVerdict "u" "p" ⟨0, [(⟨0, 0, 0, 0, 0, 0⟩, 1)]⟩
        (Memory.ofProblem "p" [("1.in", "1.out")]) s ↔
        1 ≤ 2147483647 ∧ (Outcome.mk 0 [(⟨0, 0, 0, 0, 0, 0⟩, 1)]).Succeeded) :=
  finished_verdict_iff (o := ⟨0, [(⟨0, 0, 0, 0, 0, 0⟩, 1)]⟩) [] (by decide)
    (Memory.hasTests_ofProblem _ _) rfl fun _ _ => rfl

/-- One test and a failing compilation: the test stays undecided and no row is recorded. -/
theorem unfinished_verdict :
    ∃ s, judgeThenPoll "u" "p" [] ((Outcome.mk 1 [(⟨0, 0, 0, 0, 0, 0⟩, 1)]).env
        (Memory.ofProblem "p" [("1.in", "1.out")])) = some s ∧
      s.answers = [⟨"1", "-2", ["0"]⟩] ∧ s.mem.submissions = [] ∧
      ¬FinishedVerdict "u" "p" ⟨1, [(⟨0, 0, 0, 0, 0, 0⟩, 1)]⟩
        (Memory.ofProblem "p" [("1.in", "1.out")]) s := by
  have hrun : (judgeThenPoll "u" "p" [] ((Outcome.mk 1 [(⟨0, 0, 0, 0, 0, 0⟩, 1)]).env
      (Memory.ofProblem "p" [("1.in", "1.out")]))).map (fun s => (s.answers, s.mem.submissions)) =
      some ([⟨"1", "-2", ["0"]⟩], []) := by decide +kernel
  obtain ⟨s, hs, hobserved⟩ := Option.map_eq_some_iff.mp hrun
  simp only [Prod.mk.injEq] at hobserved
  refine ⟨s, hs, hobserved.1, hobserved.2, fun h => ?_⟩
  have hdecided := h.decided ⟨"1", "-2", ["0"]⟩ (by simp [hobserved.1])
  exact absurd hdecided (by decide)

end Verdict

end OJJudge.Verdict
