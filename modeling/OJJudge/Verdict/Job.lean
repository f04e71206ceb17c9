import OJJudge.Verdict.Statuses

/-! What one job does, for every number of tests and every outcome of its commands and comparisons:
the keys that it leaves, and when it removes the files of the submission. -/

namespace OJJudge.Verdict

open Concurrency

/-! ### The keys -/

section Keys

variable {f key : String} {m : Memory}

theorem compareKey_of_ne {i : Nat} (code : Int) (hsum : key ≠ sumKey f) (htest : key ≠ testKey f i) :
    (compareKey f i code m).redis key = m.redis key := by
  unfold compareKey
  split
  · simp [Memory.setRedis, hsum, htest]
  · simp [Memory.setRedis, htest]

theorem compareKeys_of_ne (i : Nat) (codes : List Int) (hsum : key ≠ sumKey f)
    (htest : ∀ j, i ≤ j → j < i + codes.length → key ≠ testKey f j) :
    (compareKeys f i codes m).redis key = m.redis key := by
  induction codes generalizing i m with
  | nil => rfl
  | cons code codes ih =>
    rw [List.length_cons] at htest
    rw [compareKeys, ih (i + 1) fun j hij hj => htest j (by omega) (by omega),
      compareKey_of_ne code hsum (htest i le_rfl (by omega))]

end Keys

/-- The keys after a job: an error code and no change to the keys of the tests, or the result of
each comparison and the number of matches. -/
structure Computed (f : String) (o : Outcome) (m m' : Memory) : Prop where
  compile_error : o.compile ≠ 0 → m'.redis (sumKey f) = some "-2" ∧
    ∀ i, m'.redis (testKey f i) = m.redis (testKey f i)
  run_error : o.compile = 0 → ¬(∀ test ∈ o.tests, test.1.Succeeded) →
    m'.redis (sumKey f) = some "-3" ∧ ∀ i, m'.redis (testKey f i) = m.redis (testKey f i)
  judged : o.compile = 0 → (∀ test ∈ o.tests, test.1.Succeeded) →
    (∀ i (h : i < o.tests.length), m'.redis (testKey f i) =
      some (if (o.tests.get ⟨i, h⟩).2 = 1 then "1" else "-1")) ∧
    m'.redis (sumKey f) = some (toString (o.tests.countP (·.2 = 1)))
  other_keys : ∀ key, key ≠ sumKey f → (∀ i < o.tests.length, key ≠ testKey f i) →
    m'.redis key = m.redis key

theorem Outcome.computed {o : Outcome} {m : Memory} {f : String}
    (hsum : m.redis (sumKey f) = some "0")
    (htotal : (o.tests.map (·.1)).foldl addStatus 0 = 0 ↔ ∀ test ∈ o.tests, test.1.Succeeded) :
    Computed f o m (o.keys f m) where
  compile_error hc := by
    have hkeys : o.keys f m = m.setRedis (sumKey f) (some "-2") := if_neg hc
    rw [hkeys]
    exact ⟨Function.update_self .., fun i => Function.update_of_ne (testKey_ne_sumKey f f i) _ _⟩
  run_error hc hfail := by
    have hkeys : o.keys f m = m.setRedis (sumKey f) (some "-3") := by
      rw [Outcome.keys, if_pos hc, if_neg (htotal.not.mpr hfail)]
    rw [hkeys]
    exact ⟨Function.update_self .., fun i => Function.update_of_ne (testKey_ne_sumKey f f i) _ _⟩
  judged hc hok := by
    rw [keys_of_total hc (htotal.mpr hok)]
    constructor
    · intro i hi
      have hkeys := compareKeys_testKeys (f := f) (m := m) 0 (o.tests.map (·.2))
      have hvalue := congrArg (·[i]?) hkeys
      simpa [hi, testValue] using hvalue
    · have hcount : (o.tests.map (·.2)).count 1 = o.tests.countP (·.2 = 1) := by
        rw [List.count, List.countP_map]
        rfl
      rw [compareKeys_sumKey 0 (o.tests.map (·.2)) (k := 0) hsum, hcount, Nat.zero_add]
      rfl
  other_keys key hne htest := by
    unfold Outcome.keys
    split
    · split
      · exact compareKeys_of_ne 0 _ hne fun j _ hj => htest j (by simpa using hj)
      · exact Function.update_of_ne hne _ _
    · exact Function.update_of_ne hne _ _

/-! ### The files of the submission -/

/-- The paths in a command. -/
def pathsOf : Cmd → List String
  | .gpp source out => [source, out]
  | .cp source target => [source, target]
  | .rm path => [path]
  | .isolateInit | .isolateRun | .isolateCleanup => []

/-- The files that an operation uses. -/
def filesOf : Op → List String
  | .spawn cmd => pathsOf cmd
  | .file_cmp path1 path2 => [path1, path2]
  | .openFile path => [path]
  | _ => []

/-- The file is removed once, and no operation after that uses it. -/
def RemovedLast (path : String) (ops : List Op) : Prop :=
  ∃ earlier later, ops = earlier ++ .spawn (.rm path) :: later ∧ .spawn (.rm path) ∉ earlier ∧
    ∀ o ∈ later, path ∉ filesOf o

/-- The operation removes a file. -/
def Removes : Op → Prop
  | .spawn (.rm _) => True
  | _ => False

section Removal

variable {t : Thread} {s : Env} (task : Runner_task)

theorem runTests_keeps (tests : List (String × String)) (i : Nat) (status : Int32) :
    (runTests OJ_Judge task i tests status).Only fun o : Op => ¬Removes o := by
  induction tests generalizing i status with
  | nil => trivial
  | cons test rest ih =>
    refine Prog.Only.bind ?_ fun status => ih (i + 1) status
    simp [runTest, system_spawn_cmd, Removes]

theorem compareTests_keeps (tests : List (String × String)) (i : Nat) :
    (compareTests OJ_Judge task i tests).Only fun o : Op => ¬Removes o := by
  induction tests generalizing i with
  | nil => trivial
  | cons test rest ih =>
    refine Prog.Only.bind ?_ fun _ => ih (i + 1)
    simp only [compareTest, file_cmp, redis_set_field, redis_incr, redis_expire, effect_eq,
      Prog.op_bind, Prog.ret_bind, Prog.only_op]
    refine ⟨id, fun cmp_code => ?_⟩
    split
    · simp [Removes]
    · simp [Removes]

theorem reportError_keeps (f code : String) :
    (reportError f code).Only fun o : Op => ¬Removes o ∧ filesOf o = [] := by
  simp [reportError, redis_set_field, redis_expire, Removes, filesOf]

/-- The source and the executable are removed, nothing before, and no file is used after that. -/
def RemovesBoth (ops : List Op) : Prop :=
  ∃ earlier later, ops = earlier ++ .spawn (.rm (cppPath task.path task.file_name)) ::
      .spawn (.rm (runPath OJ_Judge task.file_name)) :: later ∧
    (∀ o ∈ earlier, ¬Removes o) ∧ ∀ o ∈ later, filesOf o = []

variable {task}

/-- A part of the job that removes nothing comes before the removals. -/
theorem RemovesBoth.bind {α : Type} {p : Code α} {f : α → Code Unit} {a : α} {s' : Env}
    (hruns : p.runs (Env.exec t) s = some (a, s')) (hkeeps : p.Only fun o : Op => ¬Removes o)
    (h : RemovesBoth task (((f a).events (Env.exec t) s').map (·.op))) :
    RemovesBoth task (((p >>= f).events (Env.exec t) s).map (·.op)) := by
  obtain ⟨earlier, later, hops, hearlier, hlater⟩ := h
  rw [Prog.events_bind hruns, List.map_append, hops]
  refine ⟨(p.events (Env.exec t) s).map (·.op) ++ earlier, later, by rw [List.append_assoc], ?_,
    hlater⟩
  intro o ho
  obtain ho | ho := List.mem_append.mp ho
  · obtain ⟨e, he, rfl⟩ := List.mem_map.mp ho
    exact hkeeps.events e he
  · exact hearlier o ho

theorem removesBoth_removeFiles :
    RemovesBoth task (((removeFiles OJ_Judge task).events (Env.exec t) s).map (·.op)) :=
  ⟨[], [], rfl, by simp, by simp⟩

theorem cpp_runner_removes {o : Outcome} {m : Memory} (hlock : m.lock = none)
    (hlen : task.test_vec.length = o.tests.length) :
    RemovesBoth task (((cpp_runner OJ_Judge task).events (Env.exec t) (o.env m)).map (·.op)) := by
  have hcompile : (system_spawn_cmd (.gpp (cppPath task.path task.file_name)
      (runPath OJ_Judge task.file_name))).runs (Env.exec t) (o.env m) =
      some (o.compile, { o.env m with statuses := (o.env m).statuses.tail }) := by
    simp [system_spawn_cmd, Prog.runs_op, Env.exec, Outcome.env]
  refine RemovesBoth.bind hcompile (by simp [system_spawn_cmd, Removes]) ?_
  by_cases hc : o.compile = 0
  · rw [if_pos hc]
    refine RemovesBoth.bind (runTests_runs task.test_vec (o.tests.map (·.1)) 0 0 []
      (by simpa using hlen) hlock (by simp [Outcome.env, List.flatMap_map]))
      (runTests_keeps task task.test_vec 0 0) ?_
    by_cases hr : (o.tests.map (·.1)).foldl addStatus 0 = 0
    · rw [if_pos hr]
      exact .bind (compareTests_runs task.test_vec (o.tests.map (·.2)) 0 [] (by simpa using hlen)
        (by simp [Outcome.env])) (compareTests_keeps task task.test_vec 0) removesBoth_removeFiles
    · rw [if_neg hr]
      exact .bind (reportError_runs "-3")
        ((reportError_keeps task.file_name "-3").mono fun _ ho => ho.1) removesBoth_removeFiles
  · rw [if_neg hc, Prog.events_bind removeFiles_runs, List.map_append]
    refine ⟨[], _, rfl, by simp, ?_⟩
    exact List.forall_mem_map.mpr fun e he => ((reportError_keeps task.file_name "-2").events e he).2

/-- Each of the two files is removed once, after its last use. -/
theorem RemovesBoth.last {ops : List Op} (h : RemovesBoth task ops) :
    RemovedLast (cppPath task.path task.file_name) ops ∧
      RemovedLast (runPath OJ_Judge task.file_name) ops := by
  obtain ⟨earlier, later, rfl, hearlier, hlater⟩ := h
  have hne : cppPath task.path task.file_name ≠ runPath OJ_Judge task.file_name :=
    ne_of_getLast (by decide) (by decide) (by decide) _ _
  constructor
  · refine ⟨earlier, _, rfl, fun hmem => hearlier _ hmem trivial, ?_⟩
    intro o ho
    obtain rfl | ho := List.mem_cons.mp ho
    · simpa [filesOf, pathsOf] using hne
    · simp [hlater o ho]
  · refine ⟨earlier ++ [.spawn (.rm (cppPath task.path task.file_name))], later, by simp, ?_,
      fun o ho => by simp [hlater o ho]⟩
    intro hmem
    obtain hmem | hmem := List.mem_append.mp hmem
    · exact hearlier _ hmem trivial
    · simp [hne.symm] at hmem

end Removal

/-- A job computes the verdict of its commands and comparisons, and removes its files. -/
theorem cpp_runner_computes (task : Runner_task) (t : Thread) {o : Outcome} {m : Memory}
    (hlen : task.test_vec.length = o.tests.length) (hlock : m.lock = none)
    (hsum : m.redis (sumKey task.file_name) = some "0")
    (hnonneg : ∀ status ∈ o.tests.flatMap fun test => test.1.toList, 0 ≤ status)
    (hbound : ((o.tests.flatMap fun test => test.1.toList).map Int32.toInt).sum < 2 ^ 31) :
    (∃ s, (cpp_runner OJ_Judge task).runs (Env.exec t) (o.env m) = some ((), s) ∧
      Computed task.file_name o m s.mem) ∧
    RemovedLast (cppPath task.path task.file_name)
      (((cpp_runner OJ_Judge task).events (Env.exec t) (o.env m)).map (·.op)) ∧
    RemovedLast (runPath OJ_Judge task.file_name)
      (((cpp_runner OJ_Judge task).events (Env.exec t) (o.env m)).map (·.op)) := by
  have htests : (o.tests.flatMap fun test => test.1.toList) =
      (o.tests.map (·.1)).flatMap TestStatus.toList := by rw [List.flatMap_map]
  rw [htests] at hnonneg hbound
  have htotal := foldl_addStatus_eq_zero_iff hnonneg hbound
  rw [List.forall_mem_map] at htotal
  obtain ⟨s, hruns, hmem, -⟩ := cpp_runner_runs (t := t) task hlock hlen
  refine ⟨⟨s, hruns, ?_⟩, (cpp_runner_removes hlock hlen).last⟩
  rw [hmem]
  exact Outcome.computed hsum htotal

/-- Two tests, of which the first one matches. -/
def oneMatch : Outcome := ⟨0, [(⟨0, 0, 0, 0, 0, 0⟩, 1), (⟨0, 0, 0, 0, 0, 0⟩, 0)]⟩

theorem cpp_runner_computes_two_tests : ∃ s,
    (cpp_runner OJ_Judge ⟨OJ_Judge.waiting_judge, "u__p", "p", 2, [("1.in", "1.out"),
      ("2.in", "2.out")], rfl⟩).runs (Env.exec (.submission 0))
        (oneMatch.env (resetKeys "u__p" (.ofProblem "p" []))) = some ((), s) ∧
      s.mem.redis (testKey "u__p" 0) = some "1" ∧ s.mem.redis (testKey "u__p" 1) = some "-1" ∧
      s.mem.redis (sumKey "u__p") = some "1" := by
  have hreset : (resetKeys "u__p" (.ofProblem "p" [])).redis (sumKey "u__p") = some "0" := by
    simp [resetKeys, Memory.setRedis]
  obtain ⟨⟨s, hruns, hcomputed⟩, -, -⟩ := cpp_runner_computes
    ⟨OJ_Judge.waiting_judge, "u__p", "p", 2, [("1.in", "1.out"), ("2.in", "2.out")], rfl⟩
    (.submission 0) (o := oneMatch) rfl rfl hreset
    (by simp [oneMatch, TestStatus.toList]) (by simp [oneMatch, TestStatus.toList])
  obtain ⟨htests, hsum⟩ := hcomputed.judged rfl (by simp [oneMatch, TestStatus.Succeeded,
    TestStatus.toList])
  have h0 := htests 0 (by simp [oneMatch])
  have h1 := htests 1 (by simp [oneMatch])
  have hcount : s.mem.redis (sumKey "u__p") = some (Nat.repr 1) := by simpa [oneMatch] using hsum
  exact ⟨s, hruns, by simpa [oneMatch] using h0, by simpa [oneMatch] using h1,
    hcount.trans (by decide)⟩

end OJJudge.Verdict
