import OJJudge.Concurrency.Interleaving
import OJJudge.Handlers

/-! Submissions and polls of one user and problem over a shared Redis and database.  Commands that
leave the verdict keys alone answer with any status, and `file_cmp` with any code, so a run covers
every outcome of the compiler, the sandbox and the comparisons. -/

namespace OJJudge.Verdict

open Concurrency

/-- The threads: any number of submissions and of polls. -/
inductive Thread
  | submission (k : Nat)
  | poll (k : Nat)
  deriving DecidableEq

/-- A row of `problems_cpp`. -/
structure Problem where
  problem_id : String
  title : String
  test_num : String

/-- A row of `test_cases`. -/
structure TestCase where
  problem_id : String
  input_file_path : String
  output_file_path : String

/-- A row of `submissions`, which holds `cpp` as its language. -/
structure Submission where
  user_id : String
  problem_id : String
  result : String
  deriving DecidableEq

structure Memory where
  redis : String → Option String
  /-- The holder of the sandbox mutex. -/
  lock : Option Thread
  problems_cpp : List Problem
  test_cases : List TestCase
  submissions : List Submission

/-- The answer of the database to a statement. -/
def Memory.rows (m : Memory) : Stmt → List (List String)
  | .selectProblemId title =>
    (m.problems_cpp.filter (·.title = title)).map fun row => [row.problem_id]
  | .selectTestCases problem_id =>
    (m.test_cases.filter (·.problem_id = problem_id)).map fun row =>
      [row.input_file_path, row.output_file_path]
  | .selectTestNum title =>
    (m.problems_cpp.filter (·.title = title)).map fun row => [row.test_num]
  | _ => []

def Memory.setRedis (m : Memory) (key : String) (value : Option String) : Memory :=
  { m with redis := Function.update m.redis key value }

@[simp] theorem Memory.rows_setRedis (m : Memory) (key : String) (value : Option String)
    (stmt : Stmt) : (m.setRedis key value).rows stmt = m.rows stmt := by
  cases stmt <;> rfl

/-- One effect.  The choice is the status of a command, the code of a comparison or a file
descriptor; `EXPIRE` keeps the key, as no key reaches its time limit here. -/
def exec (t : Thread) (o : Op) (x : Int) (m : Memory) : Option (o.Res × Memory) :=
  match o with
  | .get key => some (m.redis key, m)
  | .set key value => some ((), m.setRedis key (some value))
  | .incr key => some (incrReply (m.redis key), m.setRedis key (incrValue (m.redis key)))
  | .expire key _ => some ((m.redis key).isSome, m)
  | .del key => some ((), m.setRedis key none)
  | .query (.insertSubmission user_id problem_id result) =>
    some ([], { m with submissions := m.submissions ++ [⟨user_id, problem_id, result⟩] })
  | .query stmt => some (m.rows stmt, m)
  | .openFile _ => some (x.toNat, m)
  | .write _ _ | .close _ | .push _ => some ((), m)
  | .spawn _ => some (Int32.ofInt x, m)
  | .lock =>
    match m.lock with
    | none => some ((), { m with lock := some t })
    | some _ => none
  | .unlock => some (0, { m with lock := none })
  | .file_cmp _ _ => some (x, m)
  | .set_status_code _ | .append_output_body _ | .append_output_text _ | .append_output_rows _
  | .send_string _ | .add_header _ _ | .crypt _ _ | .out_of_range => some ((), m)
  | .crypt_buffer => some ("", m)
  | .localtime => some (⟨0, 0, 0⟩, m)

@[reducible] def machine : Machine effects Thread where
  Mem := Memory
  Choice := Int
  exec := exec

/-- No key is set, and the database holds one problem with its tests. -/
def Memory.ofProblem (title : String) (tests : List (String × String)) : Memory where
  redis _ := none
  lock := none
  problems_cpp := [⟨"1", title, toString tests.length⟩]
  test_cases := tests.map fun test => ⟨title, test.1, test.2⟩
  submissions := []

/-- Every submission and every poll of the pair is about to begin. -/
def start (user_name porblem_title : String) (body : Nat → Bytes) (m : Memory) :
    Config machine where
  prog
    | .submission k => runCpp OJ_Judge user_name porblem_title (body k)
    | .poll _ => runState user_name porblem_title
  mem := m
  trace := []

/-- Only the first submission and the polls run. -/
def oneSubmission : Config machine → Thread → Prop
  | _, .submission k => k = 0
  | _, .poll _ => True

instance : ∀ c t, Decidable (oneSubmission c t)
  | _, .submission k => inferInstanceAs (Decidable (k = 0))
  | _, .poll _ => inferInstanceAs (Decidable True)

/-- A submission resets the counter only when every other one that has reset it has returned. -/
def oneAtATime (f : String) (c : Config machine) (t : Thread) : Prop :=
  (c.prog t).next? = some (.set (sumKey f) "0") →
    ∀ e ∈ c.trace, e.2.op = .set (sumKey f) "0" → e.1 ≠ t → (c.prog e.1).returned

instance (f : String) (c : Config machine) (t : Thread) : Decidable (oneAtATime f c t) := by
  unfold oneAtATime
  infer_instance

/-- A part of a schedule: `count` operations of thread `t`, each with choice `x`. -/
def turns (t : Thread) (count : Nat) (x : Int) : List (Thread × machine.Choice) :=
  List.replicate count (t, x)

end OJJudge.Verdict
