import OJJudge.Staff

/-! The tests that a submission tries.  For each test its job copies the program and the input into
the sandbox, runs it there and copies the output out of it, and then it compares the outputs with the
answers, all in the order of the rows that the handler has read.  The files are those of these
names, whatever they hold. -/

namespace OJJudge

open Concurrency

/-- A step of a job that belongs to a test. -/
inductive Trial
  | program (path : String)
  | input (path : String)
  /-- The run of the sandbox. -/
  | run
  | output (path : String)
  | compare (answer output : String)
  deriving DecidableEq

def trial : Event effects → Option Trial
  | ⟨.spawn (.cp source target), _⟩ =>
    if target = boxPath "runner" then some (.program source)
    else if target = boxPath "input.txt" then some (.input source)
    else if source = boxPath "output.txt" then some (.output target)
    else none
  | ⟨.spawn .isolateRun, _⟩ => some .run
  | ⟨.file_cmp answer output, _⟩ => some (.compare answer output)
  | _ => none

/-- The trials of a history, newest first. -/
def trials (h : List (Event effects)) : List Trial := h.filterMap trial

/-- The trials of the first loop, from test `i` on. -/
def runTrials (f : String) : Nat → List (String × String) → List Trial
  | _, [] => []
  | i, (input, _) :: rest =>
    .program (runPath OJ_Judge f) :: .input (OJ_Judge.inPath ++ "/" ++ input) :: .run ::
      .output (outputPath OJ_Judge.waiting_judge f i) :: runTrials f (i + 1) rest

/-- The trials of the second loop, from test `i` on. -/
def compareTrials (f : String) : Nat → List (String × String) → List Trial
  | _, [] => []
  | i, (_, answer) :: rest =>
    .compare (OJ_Judge.ansPath ++ "/" ++ answer) (outputPath OJ_Judge.waiting_judge f i) ::
      compareTrials f (i + 1) rest

/-- The trials of a submission with these tests, newest first, so far. -/
def Tries (f : String) (tests : List (String × String)) (ms : List Trial) : Prop :=
  ms.reverse <+: runTrials f 0 tests ++ compareTrials f 0 tests

/-- A submission that has come to its end has tried no test, or it has run all of them, or it has
run and compared all of them. -/
def Tried (f : String) (tests : List (String × String)) (ms : List Trial) : Prop :=
  ms = [] ∨ ms.reverse = runTrials f 0 tests ∨
    ms.reverse = runTrials f 0 tests ++ compareTrials f 0 tests

section Submission

variable {task : Runner_task} {f : String} {tests : List (String × String)}
  {A : (o : Op) → o.Res → Prop} {ms left : List Trial} {h : List (Event effects)} {α : Type}

theorem tries_nil : Tries f tests [] := List.nil_prefix

/-- When something is left of the trials, the ones before it are among them. -/
theorem tries_of_append (hleft : ms.reverse ++ left = runTrials f 0 tests ++ compareTrials f 0 tests) :
    Tries f tests ms :=
  ⟨left, hleft⟩

theorem Tried.tries (h : Tried f tests ms) : Tries f tests ms := by
  obtain rfl | h | h := h
  · exact tries_nil
  · exact ⟨_, congrArg (· ++ compareTrials f 0 tests) h⟩
  · exact ⟨[], by rw [List.append_nil, h]⟩

theorem trial_cp (source target : String) (r : Int32) :
    trial ⟨.spawn (.cp source target), r⟩ =
      if target = boxPath "runner" then some (.program source)
      else if target = boxPath "input.txt" then some (.input source)
      else if source = boxPath "output.txt" then some (.output target)
      else none := rfl

/-- One test runs the program on its input and saves the output. -/
theorem runTest_tries (hpath : task.path = OJ_Judge.waiting_judge) (hname : task.file_name = f)
    {i : Nat} {input : String} (sum : Int32) (hh : trials h = ms)
    (hleft : ms.reverse ++ (.program (runPath OJ_Judge f) ::
        .input (OJ_Judge.inPath ++ "/" ++ input) :: .run ::
        .output (outputPath OJ_Judge.waiting_judge f i) :: left) =
      runTrials f 0 tests ++ compareTrials f 0 tests) :
    (runTest OJ_Judge task i input sum).Wp (Records A) (fun h _ => Tries f tests (trials h))
      (fun _ h => (trials h).reverse ++ left = runTrials f 0 tests ++ compareTrials f 0 tests) h := by
  have hinput : boxPath "input.txt" ≠ boxPath "runner" := by
    rw [Ne, boxPath_inj]
    decide
  have hrunner : outputPath OJ_Judge.waiting_judge f i ≠ boxPath "runner" :=
    (boxPath_ne_outputPath _ _ _).symm
  have houtput : outputPath OJ_Judge.waiting_judge f i ≠ boxPath "input.txt" :=
    (boxPath_ne_outputPath _ _ _).symm
  have hbefore := tries_of_append hleft
  rw [List.append_cons, ← List.reverse_cons] at hleft
  have hloaded := tries_of_append hleft
  rw [List.append_cons, ← List.reverse_cons] at hleft
  have hready := tries_of_append hleft
  rw [List.append_cons, ← List.reverse_cons] at hleft
  have hran := tries_of_append hleft
  rw [List.append_cons, ← List.reverse_cons] at hleft
  have hafter := tries_of_append hleft
  simp only [runTest, system_spawn_cmd, effect_eq, Prog.op_bind, Prog.ret_bind, Prog.pure_eq]
  refine Prog.wp_unmarked_op (fun _ => rfl) hbefore hh fun _ s _ hs => ?_
  refine Prog.wp_unmarked_op (fun _ => rfl) hbefore hs fun _ s _ hs => ?_
  refine Prog.wp_marked_op (f := fun _ => .program (runPath OJ_Judge f))
    (fun r => by rw [trial_cp, hname, if_pos rfl]) hbefore hs fun _ s _ hs => ?_
  refine Prog.wp_marked_op (f := fun _ => .input (OJ_Judge.inPath ++ "/" ++ input))
    (fun r => by rw [trial_cp, if_neg hinput, if_pos rfl]) hloaded hs fun _ s _ hs => ?_
  refine Prog.wp_marked_op (f := fun _ => .run) (fun _ => rfl) hready hs fun _ s _ hs => ?_
  refine Prog.wp_marked_op (f := fun _ => .output (outputPath OJ_Judge.waiting_judge f i))
    (fun r => by rw [trial_cp, hpath, hname, if_neg hrunner, if_neg houtput, if_pos rfl]) hran hs
    fun _ s _ hs => ?_
  refine Prog.wp_unmarked_op (fun _ => rfl) hafter hs fun _ s _ hs => ?_
  refine Prog.wp_unmarked_op (fun _ => rfl) hafter hs fun _ s _ hs => ?_
  show (trials s).reverse ++ left = _
  rw [show trials s = _ from hs]
  exact hleft

/-- The first loop runs its tests in order. -/
theorem runTests_tries (hpath : task.path = OJ_Judge.waiting_judge) (hname : task.file_name = f)
    {rest : List (String × String)} {i : Nat} (sum : Int32)
    (hleft : (trials h).reverse ++ (runTrials f i rest ++ left) =
      runTrials f 0 tests ++ compareTrials f 0 tests) :
    (runTests OJ_Judge task i rest sum).Wp (Records A) (fun h _ => Tries f tests (trials h))
      (fun _ h => (trials h).reverse ++ left = runTrials f 0 tests ++ compareTrials f 0 tests) h := by
  induction rest generalizing i sum h with
  | nil => exact hleft
  | cons test rest ih =>
    exact (runTest_tries hpath hname sum rfl hleft).bind fun sum s hs => ih sum hs

theorem compareTest_tries (hpath : task.path = OJ_Judge.waiting_judge) (hname : task.file_name = f)
    {i : Nat} {answer : String}
    (hleft : (trials h).reverse ++ (.compare (OJ_Judge.ansPath ++ "/" ++ answer)
        (outputPath OJ_Judge.waiting_judge f i) :: left) =
      runTrials f 0 tests ++ compareTrials f 0 tests) :
    (compareTest OJ_Judge task i answer).Wp (Records A) (fun h _ => Tries f tests (trials h))
      (fun _ h => (trials h).reverse ++ left = runTrials f 0 tests ++ compareTrials f 0 tests) h := by
  have hbefore := tries_of_append hleft
  rw [List.append_cons, ← List.reverse_cons] at hleft
  have hafter := tries_of_append hleft
  simp only [compareTest, file_cmp, redis_set_field, redis_incr, redis_expire, effect_eq,
    Prog.op_bind, Prog.ret_bind, Prog.pure_eq]
  refine Prog.wp_marked_op (f := fun _ => .compare (OJ_Judge.ansPath ++ "/" ++ answer)
    (outputPath OJ_Judge.waiting_judge f i)) (fun _ => ?_) hbefore rfl fun cmp_code s _ hs => ?_
  · rw [hpath, hname]
    rfl
  have hend : ∀ s, s.filterMap trial = .compare (OJ_Judge.ansPath ++ "/" ++ answer)
      (outputPath OJ_Judge.waiting_judge f i) :: trials h →
      (trials s).reverse ++ left = runTrials f 0 tests ++ compareTrials f 0 tests := by
    intro s hs
    rw [trials, hs]
    exact hleft
  split
  · refine Prog.wp_unmarked_op (fun _ => rfl) hafter hs fun _ s _ hs => ?_
    refine Prog.wp_unmarked_op (fun _ => rfl) hafter hs fun _ s _ hs => ?_
    exact Prog.wp_unmarked_op (fun _ => rfl) hafter hs fun _ s _ hs => hend s hs
  · refine Prog.wp_unmarked_op (fun _ => rfl) hafter hs fun _ s _ hs => ?_
    exact Prog.wp_unmarked_op (fun _ => rfl) hafter hs fun _ s _ hs => hend s hs

/-- The second loop compares its tests in order. -/
theorem compareTests_tries (hpath : task.path = OJ_Judge.waiting_judge) (hname : task.file_name = f)
    {rest : List (String × String)} {i : Nat}
    (hleft : (trials h).reverse ++ compareTrials f i rest =
      runTrials f 0 tests ++ compareTrials f 0 tests) :
    (compareTests OJ_Judge task i rest).Wp (Records A) (fun h _ => Tries f tests (trials h))
      (fun _ h => (trials h).reverse = runTrials f 0 tests ++ compareTrials f 0 tests) h := by
  induction rest generalizing i h with
  | nil => exact (List.append_nil _).symm.trans hleft
  | cons test rest ih =>
    exact (compareTest_tries hpath hname hleft).bind fun _ s hs => ih hs

theorem removeFiles_untried :
    (removeFiles OJ_Judge task).Only fun o => ∀ r, trial ⟨o, r⟩ = none := by
  simp [removeFiles, system_spawn_cmd, trial]

theorem reportError_untried (file_name code : String) :
    (reportError file_name code).Only fun o => ∀ r, trial ⟨o, r⟩ = none := by
  simp [reportError, redis_set_field, redis_expire, trial]

/-- A program without trials keeps what a submission has tried. -/
theorem tried_of_untried {p : Prog effects α} (hp : p.Only fun o => ∀ r, trial ⟨o, r⟩ = none)
    (hh : Tried f tests (trials h)) :
    p.Wp (Records A) (fun h _ => Tries f tests (trials h)) (fun _ h => Tried f tests (trials h)) h :=
  (Prog.wp_unmarked hp hh.tries rfl).mono (fun _ _ => id) fun _ s hs => by
    rw [trials, hs]
    exact hh

theorem cpp_runner_tries (hpath : task.path = OJ_Judge.waiting_judge) (hname : task.file_name = f)
    (htests : task.test_vec = tests) (hh : trials h = []) :
    (cpp_runner OJ_Judge task).Wp (Records A) (fun h _ => Tries f tests (trials h))
      (fun _ h => Tried f tests (trials h)) h := by
  unfold cpp_runner
  simp only [system_spawn_cmd, effect_eq, Prog.op_bind, Prog.ret_bind, htests]
  refine Prog.wp_unmarked_op (fun _ => rfl) tries_nil hh fun status s _ hs => ?_
  split
  · have hleft : (trials s).reverse ++ (runTrials f 0 tests ++ compareTrials f 0 tests) =
        runTrials f 0 tests ++ compareTrials f 0 tests := by
      rw [trials, hs]
      rfl
    refine (runTests_tries hpath hname 0 hleft).bind fun sum s hs => ?_
    have hran : Tried f tests (trials s) := .inr (.inl (List.append_cancel_right hs))
    split
    · refine (compareTests_tries hpath hname hs).bind fun _ s hs => ?_
      exact tried_of_untried removeFiles_untried (.inr (.inr hs))
    · refine (tried_of_untried (reportError_untried _ _) hran).bind fun _ s hs => ?_
      exact tried_of_untried removeFiles_untried hs
  · refine (tried_of_untried removeFiles_untried (.inl hs)).bind fun _ s hs => ?_
    exact tried_of_untried (reportError_untried _ _) hs

/-- The answer of the database to the look-up of the tests: their rows, or nothing on a failure. -/
def TestRows (title : String) (tests : List (String × String)) : (o : Op) → o.Res → Prop
  | .query (.selectTestCases problem_id), rows =>
    problem_id = title → rows = [] ∨ rows = tests.map fun test => [test.1, test.2]
  | _, _ => True

theorem TaskPush_tries {title : String} {mysql_kv : List (List String)}
    (hrows : mysql_kv = [] ∨ mysql_kv = tests.map fun test => [test.1, test.2])
    (hh : trials h = []) :
    (TaskPush OJ_Judge f title mysql_kv).Wp (Records A) (fun h _ => Tries f tests (trials h))
      (fun _ h => Tried f tests (trials h)) h := by
  have hcells : (tests.map fun test => [test.1, test.2]).map
      (fun cow => (cow.getD 0 "", cow.getD 1 "")) = tests := by
    rw [List.map_map]
    exact List.map_id tests
  unfold TaskPush
  simp only [effect_eq, Prog.op_bind, Prog.ret_bind]
  split
  · exact Prog.wp_unmarked_op (fun _ => rfl) tries_nil hh fun _ _ _ hs => .inl hs
  · next hlength =>
    obtain rfl | rfl := hrows
    · exact absurd rfl hlength
    · refine Prog.wp_unmarked_op (fun _ => rfl) tries_nil hh fun _ s _ hs => ?_
      refine Prog.wp_unmarked_op (fun _ => rfl) tries_nil hs fun _ s _ hs => ?_
      exact cpp_runner_tries rfl rfl hcells hs

/-- A submission tries the tests that the database names, for the user whom the session names. -/
theorem runCpp_tries {user_name title : String} {body : Bytes} (hh : trials h = []) :
    (runCpp OJ_Judge user_name title body).Wp (Records (TestRows title tests))
      (fun h _ => Tries (fileName user_name title) tests (trials h))
      (fun _ h => Tried (fileName user_name title) tests (trials h)) h := by
  simp only [runCpp, effect_eq, Prog.op_bind, Prog.ret_bind]
  refine Prog.wp_unmarked_op (fun _ => rfl) tries_nil hh fun sql_kv s _ hs => ?_
  dsimp only
  split
  · refine Prog.wp_unmarked_op (fun _ => rfl) tries_nil hs fun _ s _ hs => ?_
    refine Prog.wp_unmarked_op (fun _ => rfl) tries_nil hs fun _ s _ hs => ?_
    refine Prog.wp_unmarked_op (fun _ => rfl) tries_nil hs fun _ s _ hs => ?_
    refine Prog.wp_unmarked_op (fun _ => rfl) tries_nil hs fun _ s _ hs => ?_
    refine Prog.wp_unmarked_op (fun _ => rfl) tries_nil hs fun _ s _ hs => ?_
    refine Prog.wp_unmarked_op (fun _ => rfl) tries_nil hs fun _ s _ hs => ?_
    refine Prog.wp_unmarked_op (fun _ => rfl) tries_nil hs fun _ s _ hs => ?_
    refine Prog.wp_unmarked_op (fun _ => rfl) tries_nil hs fun _ s _ hs => ?_
    refine Prog.wp_unmarked_op (fun _ => rfl) tries_nil hs fun mysql_kv s hrows hs => ?_
    exact TaskPush_tries (hrows rfl) hs
  · exact Prog.wp_unmarked_op (fun _ => rfl) tries_nil hs fun _ _ _ hs => .inl hs

end Submission

end OJJudge
