import OJJudge.Effects

/-! `cpp_runner`, the pool job that compiles a submission, runs it on every test in the sandbox and
writes the verdict to Redis. -/

namespace OJJudge

open Concurrency

/-- The sandbox box that the job copies to and from. -/
def boxPath (name : String) : String := "/var/local/lib/isolate/1/box/" ++ name

@[simp] theorem boxPath_inj {name name' : String} :
    boxPath name = boxPath name' ↔ name = name' := by
  unfold boxPath
  exact String.append_right_inj _

theorem boxPath_ne_runPath (name f : String) : boxPath name ≠ runPath OJ_Judge f := by
  rw [runPath, String.append_assoc, String.append_assoc]
  exact append_ne_append 2 (by decide) (by decide) (by decide) _ _

theorem boxPath_ne_cppPath (name f : String) :
    boxPath name ≠ cppPath OJ_Judge.waiting_judge f := by
  rw [cppPath, String.append_assoc, String.append_assoc]
  exact append_ne_append 2 (by decide) (by decide) (by decide) _ _

theorem boxPath_ne_outputPath (name f : String) (i : Nat) :
    boxPath name ≠ outputPath OJ_Judge.waiting_judge f i := by
  rw [outputPath, String.append_assoc, String.append_assoc, String.append_assoc,
    String.append_assoc]
  exact append_ne_append 2 (by decide) (by decide) (by decide) _ _

/-- One test in the sandbox: the body of the first loop of `cpp_runner`, with the sum of the
statuses so far. -/
def runTest (conf : IsolateConf) (task : Runner_task) (i : Nat) (input : String)
    (status : Int32) : Code Int32 := do
  effect .lock
  let init ← system_spawn_cmd .isolateInit
  let cpRunner ← system_spawn_cmd (.cp (runPath conf task.file_name) (boxPath "runner"))
  let cpInput ← system_spawn_cmd (.cp (conf.inPath ++ "/" ++ input) (boxPath "input.txt"))
  let run ← system_spawn_cmd .isolateRun
  let cpOutput ← system_spawn_cmd
    (.cp (boxPath "output.txt") (outputPath task.path task.file_name i))
  let cleanup ← system_spawn_cmd .isolateCleanup
  let unlock ← effect .unlock
  return status + init + cpRunner + cpInput + run + cpOutput + cleanup + unlock

/-- The first loop, from test `i` on. -/
def runTests (conf : IsolateConf) (task : Runner_task) :
    Nat → List (String × String) → Int32 → Code Int32
  | _, [], status => return status
  | i, (input, _) :: rest, status => do
    let status ← runTest conf task i input status
    runTests conf task (i + 1) rest status

/-- The comparison of the output of test `i`: the body of the second loop. -/
def compareTest (conf : IsolateConf) (task : Runner_task) (i : Nat) (answer : String) :
    Code Unit := do
  let cmp_code ← file_cmp (conf.ansPath ++ "/" ++ answer) (outputPath task.path task.file_name i)
  if cmp_code = 1 then do
    redis_set_field (testKey task.file_name i) "1"
    let _ ← redis_incr (sumKey task.file_name)
  else
    redis_set_field (testKey task.file_name i) "-1"
  let _ ← redis_expire (testKey task.file_name i) 40

/-- The second loop, from test `i` on. -/
def compareTests (conf : IsolateConf) (task : Runner_task) :
    Nat → List (String × String) → Code Unit
  | _, [] => return ()
  | i, (_, answer) :: rest => do
    compareTest conf task i answer
    compareTests conf task (i + 1) rest

/-- The removal of the source and the executable. -/
def removeFiles (conf : IsolateConf) (task : Runner_task) : Code Unit := do
  let _ ← system_spawn_cmd (.rm (cppPath task.path task.file_name))
  let _ ← system_spawn_cmd (.rm (runPath conf task.file_name))

/-- The error code in place of the count, `-2` or `-3`. -/
def reportError (file_name code : String) : Code Unit := do
  redis_set_field (sumKey file_name) code
  let _ ← redis_expire (sumKey file_name) 40

/-- The statuses add up in a 32-bit `int`, and only a sum of zero counts as success. -/
def cpp_runner (conf : IsolateConf) (task : Runner_task) : Code Unit := do
  let status ← system_spawn_cmd
    (.gpp (cppPath task.path task.file_name) (runPath conf task.file_name))
  if status = 0 then do
    let status ← runTests conf task 0 task.test_vec 0
    if status = 0 then
      compareTests conf task 0 task.test_vec
    else
      reportError task.file_name "-3"
    removeFiles conf task
  else do
    removeFiles conf task
    reportError task.file_name "-2"

/-- The operations that a job runs. -/
inductive RunnerOp (conf : IsolateConf) (task : Runner_task) : Op → Prop
  | compile : RunnerOp conf task
      (.spawn (.gpp (cppPath task.path task.file_name) (runPath conf task.file_name)))
  | lock : RunnerOp conf task .lock
  | init : RunnerOp conf task (.spawn .isolateInit)
  | copyRunner : RunnerOp conf task
      (.spawn (.cp (runPath conf task.file_name) (boxPath "runner")))
  | copyInput (input : String) : RunnerOp conf task
      (.spawn (.cp (conf.inPath ++ "/" ++ input) (boxPath "input.txt")))
  | run : RunnerOp conf task (.spawn .isolateRun)
  | copyOutput (i : Nat) : RunnerOp conf task
      (.spawn (.cp (boxPath "output.txt") (outputPath task.path task.file_name i)))
  | cleanup : RunnerOp conf task (.spawn .isolateCleanup)
  | unlock : RunnerOp conf task .unlock
  | compare (answer : String) (i : Nat) : RunnerOp conf task
      (.file_cmp (conf.ansPath ++ "/" ++ answer) (outputPath task.path task.file_name i))
  | setTest (i : Nat) (value : String) : RunnerOp conf task (.set (testKey task.file_name i) value)
  | count : RunnerOp conf task (.incr (sumKey task.file_name))
  | expireTest (i : Nat) : RunnerOp conf task (.expire (testKey task.file_name i) 40)
  | setError (code : String) : RunnerOp conf task (.set (sumKey task.file_name) code)
  | expireSum : RunnerOp conf task (.expire (sumKey task.file_name) 40)
  | removeSource : RunnerOp conf task (.spawn (.rm (cppPath task.path task.file_name)))
  | removeRun : RunnerOp conf task (.spawn (.rm (runPath conf task.file_name)))

section Operations

variable (conf : IsolateConf) (task : Runner_task)

theorem runTests_only (tests : List (String × String)) (i : Nat) (status : Int32) :
    (runTests conf task i tests status).Only (RunnerOp conf task) := by
  induction tests generalizing i status with
  | nil => trivial
  | cons test rest ih =>
    refine Prog.Only.bind ?_ fun status => ih (i + 1) status
    simp only [runTest, system_spawn_cmd, effect_eq, Prog.op_bind, Prog.ret_bind]
    exact ⟨.lock, fun _ => ⟨.init, fun _ => ⟨.copyRunner, fun _ => ⟨.copyInput test.1, fun _ =>
      ⟨.run, fun _ => ⟨.copyOutput i, fun _ => ⟨.cleanup, fun _ => ⟨.unlock, fun _ =>
      trivial⟩⟩⟩⟩⟩⟩⟩⟩

theorem compareTests_only (tests : List (String × String)) (i : Nat) :
    (compareTests conf task i tests).Only (RunnerOp conf task) := by
  induction tests generalizing i with
  | nil => trivial
  | cons test rest ih =>
    refine Prog.Only.bind ?_ fun _ => ih (i + 1)
    simp only [compareTest, file_cmp, redis_set_field, redis_incr, redis_expire, effect_eq,
      Prog.op_bind, Prog.ret_bind]
    refine ⟨.compare test.2 i, fun cmp_code => ?_⟩
    dsimp only
    split
    · exact ⟨.setTest i "1", fun _ => ⟨.count, fun _ => ⟨.expireTest i, fun _ => trivial⟩⟩⟩
    · exact ⟨.setTest i "-1", fun _ => ⟨.expireTest i, fun _ => trivial⟩⟩

theorem removeFiles_only : (removeFiles conf task).Only (RunnerOp conf task) := by
  simp only [removeFiles, system_spawn_cmd, effect_eq, Prog.op_bind, Prog.ret_bind]
  exact ⟨.removeSource, fun _ => ⟨.removeRun, fun _ => trivial⟩⟩

theorem reportError_only (code : String) :
    (reportError task.file_name code).Only (RunnerOp conf task) := by
  simp only [reportError, redis_set_field, redis_expire, effect_eq, Prog.op_bind, Prog.ret_bind]
  exact ⟨.setError code, fun _ => ⟨.expireSum, fun _ => trivial⟩⟩

theorem cpp_runner_only : (cpp_runner conf task).Only (RunnerOp conf task) := by
  simp only [cpp_runner, system_spawn_cmd, effect_eq, Prog.op_bind, Prog.ret_bind]
  refine ⟨.compile, fun status => ?_⟩
  dsimp only
  split
  · refine (runTests_only conf task _ _ _).bind fun status => ?_
    split
    · exact (compareTests_only conf task _ _).bind fun _ => removeFiles_only conf task
    · exact (reportError_only conf task "-3").bind fun _ => removeFiles_only conf task
  · exact (removeFiles_only conf task).bind fun _ => reportError_only conf task "-2"

end Operations

end OJJudge
