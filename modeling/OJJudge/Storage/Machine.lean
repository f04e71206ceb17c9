import OJJudge.Source.Machine
import OJJudge.Staff
import OJJudge.UserInfo

/-! Requests of all handlers over the one Redis, the one database and the files that they share.
Each SQL statement stands for the query that it spells, with its values taken literally; any storage
operation that `mayFail` allows can fail, as a read of a key does when its time limit has passed. -/

namespace OJJudge.Storage

open Concurrency

/-- A row of `problems_cpp`. -/
structure Problem where
  problem_id : Nat
  title : String
  difficulty : String
  time_limit : String
  memory_limit : String
  author_id : String
  is_public : String
  test_num : String
  deriving DecidableEq

/-- A row of `test_cases`. -/
structure TestCase where
  problem_id : String
  input_file_path : String
  output_file_path : String
  deriving DecidableEq

/-- A row of `submissions`, which holds `cpp` as its language. -/
structure Submission where
  user_id : String
  problem_id : String
  result : String
  deriving DecidableEq

structure Memory where
  redis : String → Option String
  user_table : List Account
  problems_cpp : List Problem
  test_cases : List TestCase
  submissions : List Submission
  files : String → Option Bytes
  /-- The path behind a file descriptor. -/
  fdPath : Nat → String
  opened : Nat
  /-- The static buffer of `crypt`. -/
  crypt_buffer : String
  /-- The holder of the sandbox mutex. -/
  lock : Option Nat

/-- The role that the look-up gives: the one of the first row with the name. -/
def Memory.role (m : Memory) (username : String) : Option String :=
  (m.user_table.find? (·.username = username)).map (·.role)

/-- The answer of the database to a query; a page of problems is left open. -/
def Memory.rows (m : Memory) : Stmt → List (List String) → List (List String)
  | .selectProblemId title, _ | .selectExisting title, _ =>
    (m.problems_cpp.filter (·.title = title)).map fun row => [toString row.problem_id]
  | .selectTestCases problem_id, _ =>
    (m.test_cases.filter (·.problem_id = problem_id)).map fun row =>
      [row.input_file_path, row.output_file_path]
  | .selectTestNum title, _ =>
    (m.problems_cpp.filter (·.title = title)).map fun row => [row.test_num]
  | .selectRole username, _ =>
    (m.user_table.filter (·.username = username)).map fun row => [row.role]
  | .selectLogin username password_hash, _ =>
    (m.user_table.filter fun row =>
      row.username = username ∧ row.password_hash = password_hash).map fun row =>
        [row.role, row.username]
  | .selectProblems _, page => page
  | _, _ => []

/-- The database after a statement. -/
def Memory.apply (m : Memory) : Stmt → Memory
  | .insertSubmission user_id problem_id result =>
    { m with submissions := m.submissions ++ [⟨user_id, problem_id, result⟩] }
  | .deleteTestCases problem_id =>
    { m with test_cases := m.test_cases.filter (·.problem_id ≠ problem_id) }
  | .insertProblem title difficulty time_limit memory_limit author_id is_public test_num =>
    { m with
      problems_cpp := m.problems_cpp ++ [⟨m.problems_cpp.length + 1, title, difficulty, time_limit,
        memory_limit, author_id, is_public, test_num⟩] }
  | .insertTestCase problem_id input_file_path output_file_path =>
    { m with test_cases := m.test_cases ++ [⟨problem_id, input_file_path, output_file_path⟩] }
  | .insertUser username password_hash role =>
    { m with user_table := m.user_table ++ [⟨username, password_hash, role⟩] }
  | _ => m

def Memory.setRedis (m : Memory) (key : String) (value : Option String) : Memory :=
  { m with redis := Function.update m.redis key value }

/-- `open` with `O_RDWR | O_CREAT`: a file that exists keeps its bytes. -/
def Memory.openFile (m : Memory) (path : String) : Memory :=
  { m with
    files := Function.update m.files path (some ((m.files path).getD []))
    fdPath := Function.update m.fdPath m.opened path
    opened := m.opened + 1 }

/-- `write` on a descriptor at offset zero: bytes behind the written ones stay. -/
def Memory.write (m : Memory) (fd : Nat) (body : Bytes) : Memory :=
  { m with
    files := Function.update m.files (m.fdPath fd)
      ((m.files (m.fdPath fd)).map fun old => body ++ old.drop body.length) }

/-- What a step leaves open: whether its storage operation fails, the responses that the memory does
not decide, and the files after a spawned command. -/
structure Choice where
  fault : Bool
  answer : (o : Op) → o.Res
  files : String → Option Bytes

/-- The response of a storage operation that fails. -/
def failure (answer : (o : Op) → o.Res) : (o : Op) → o.Res
  | .get _ => none
  | .incr _ => -1
  | .expire _ _ => false
  | .query _ => []
  | o => answer o

/-- The response of an operation that succeeds. -/
def Memory.response (m : Memory) (answer : (o : Op) → o.Res) : (o : Op) → o.Res
  | .get key => m.redis key
  | .incr key => incrReply (m.redis key)
  | .expire key _ => (m.redis key).isSome
  | .query stmt => m.rows stmt (answer (.query stmt))
  | .openFile _ => m.opened
  | .crypt_buffer => m.crypt_buffer
  | o => answer o

/-- The memory after an operation that succeeds. -/
def Memory.after (m : Memory) (lib : Library) (t : Nat) (files : String → Option Bytes) :
    Op → Memory
  | .set key value => m.setRedis key (some value)
  | .incr key => m.setRedis key (incrValue (m.redis key))
  | .del key => m.setRedis key none
  | .query stmt => m.apply stmt
  | .openFile path => m.openFile path
  | .write fd body => m.write fd body
  | .spawn _ => { m with files := files }
  | .lock => { m with lock := some t }
  | .unlock => { m with lock := none }
  | .crypt key salt => { m with crypt_buffer := lib.crypt key salt }
  | _ => m

/-- One effect; only the mutex makes an operation wait. -/
def exec (lib : Library) (mayFail : Op → Bool) (t : Nat) (o : Op) (x : Choice) (m : Memory) :
    Option (o.Res × Memory) :=
  if o = .lock ∧ m.lock.isSome then none
  else if mayFail o ∧ x.fault then some (failure x.answer o, m)
  else some (m.response x.answer o, m.after lib t x.files o)

@[reducible] def machine (lib : Library) (mayFail : Op → Bool) : Machine effects Nat where
  Mem := Memory
  Choice := Choice
  exec := exec lib mayFail

/-- Every storage operation can fail. -/
def anyFault : Op → Bool
  | .get _ | .set _ _ | .incr _ | .expire _ _ | .del _ | .query _ | .openFile _ | .write _ _ => true
  | _ => false

inductive Handler
  | userRegist
  | userLogin
  | runCpp
  | runState
  | add_problem
  | add_test_in
  | add_test_out
  | get_problem_list
  deriving DecidableEq

structure Request where
  handler : Handler
  req : HttpReq

/-- What the server runs for a request. -/
def Request.prog (lib : Library) (request : Request) : Code Unit :=
  match request.handler with
  | .userRegist => UserInfo.userRegist lib request.req
  | .userLogin => UserInfo.userLogin lib request.req
  | .runCpp => Judge.runCpp OJ_Judge request.req
  | .runState => Judge.runState request.req
  | .add_problem => Judge.add_problem request.req
  | .add_test_in => Judge.add_test_in OJ_Judge request.req
  | .add_test_out => Judge.add_test_out OJ_Judge request.req
  | .get_problem_list => Judge.get_problem_list request.req

/-- All handlers but the two of `UserInfo` read their parameters and then check the session. -/
theorem Request.prog_eq_session (lib : Library) {request : Request}
    (hregist : request.handler ≠ .userRegist) (hlogin : request.handler ≠ .userLogin) :
    ∃ next : (String → String) → String → Code Unit, request.prog lib =
      withParams request.req fun KVpairs => session request.req (next KVpairs) := by
  obtain ⟨handler, req⟩ := request
  unfold Request.prog
  cases handler with
  | userRegist => exact absurd rfl hregist
  | userLogin => exact absurd rfl hlogin
  | runCpp =>
    unfold Judge.runCpp
    exact ⟨_, rfl⟩
  | runState =>
    unfold Judge.runState
    exact ⟨_, rfl⟩
  | add_problem =>
    unfold Judge.add_problem
    exact ⟨_, rfl⟩
  | add_test_in =>
    unfold Judge.add_test_in
    exact ⟨_, rfl⟩
  | add_test_out =>
    unfold Judge.add_test_out
    exact ⟨_, rfl⟩
  | get_problem_list =>
    unfold Judge.get_problem_list
    exact ⟨_, rfl⟩

/-- Every request is about to begin. -/
def start (lib : Library) (mayFail : Op → Bool) (requests : Nat → Request) (m : Memory) :
    Config (machine lib mayFail) where
  prog t := (requests t).prog lib
  mem := m
  trace := []

/-- No key, no row and no file. -/
def Memory.empty : Memory where
  redis _ := none
  user_table := []
  problems_cpp := []
  test_cases := []
  submissions := []
  files _ := none
  fdPath _ := ""
  opened := 0
  crypt_buffer := ""
  lock := none

/-- One account, whose password is `secret`. -/
def Memory.account (username role : String) : Memory :=
  { Memory.empty with
    user_table := [⟨username, "$5$73256$RSe39LE1w6eu3q4uIrArcDxgcmAjyg89mEclDVvVSS6", role⟩] }

/-- A step without a fault. -/
def Choice.quiet : Choice := ⟨false, Source.answers, fun _ => none⟩

/-- An operation fails and leaves the memory, or succeeds. -/
theorem exec_cases {lib : Library} {mayFail : Op → Bool} {t : Nat} {o : Op} {x : Choice}
    {m m' : Memory} {r : o.Res} (h : exec lib mayFail t o x m = some (r, m')) :
    (mayFail o = true ∧ r = failure x.answer o ∧ m' = m) ∨
      (r = m.response x.answer o ∧ m' = m.after lib t x.files o) := by
  unfold exec at h
  split at h
  · cases h
  · split at h
    · next hfail =>
      cases h
      exact .inl ⟨hfail.1, rfl, rfl⟩
    · cases h
      exact .inr ⟨rfl, rfl⟩

theorem mem_of_exec {lib : Library} {mayFail : Op → Bool} {t : Nat} {o : Op} {x : Choice}
    {m m' : Memory} {r : o.Res} (h : exec lib mayFail t o x m = some (r, m')) :
    m' = m ∨ m' = m.after lib t x.files o := by
  obtain ⟨-, -, hm⟩ | ⟨-, hm⟩ := exec_cases h
  · exact .inl hm
  · exact .inr hm

section Reads

variable (m : Memory) (lib : Library) (t : Nat) (files : String → Option Bytes)
  (answer : (o : Op) → o.Res)

@[simp] theorem Memory.response_get (key : String) : m.response answer (.get key) = m.redis key := rfl

@[simp] theorem Memory.after_get (key : String) : m.after lib t files (.get key) = m := rfl

@[simp] theorem Memory.response_query (stmt : Stmt) :
    m.response answer (.query stmt) = m.rows stmt (answer (.query stmt)) := rfl

@[simp] theorem Memory.after_query (stmt : Stmt) :
    m.after lib t files (.query stmt) = m.apply stmt := rfl

@[simp] theorem Memory.apply_selectRole (username : String) : m.apply (.selectRole username) = m := rfl

@[simp] theorem Memory.apply_selectExisting (title : String) :
    m.apply (.selectExisting title) = m := rfl

end Reads

/-! ### Requests that run alone -/

/-- One effect of a request that runs alone, with storage that works. -/
def alone (lib : Library) (o : Op) (m : Memory) : Option (o.Res × Memory) :=
  exec lib (fun _ => false) 0 o .quiet m

section Alone

variable {lib : Library} {o : Op}

theorem alone_eq (ho : o ≠ .lock) (m : Memory) :
    alone lib o m = some (m.response Source.answers o, m.after lib 0 (fun _ => none) o) := by
  simp [alone, exec, ho, Choice.quiet]

theorem runs_alone (ho : o ≠ .lock) (k : o.Res → Code Unit) (m : Memory) :
    (Prog.op (S := effects) o k).runs (alone lib) m =
      (k (m.response Source.answers o)).runs (alone lib) (m.after lib 0 (fun _ => none) o) := by
  rw [Prog.runs_op]
  simp only [alone_eq ho, Option.bind_some]

theorem events_alone (ho : o ≠ .lock) (k : o.Res → Code Unit) (m : Memory) :
    (Prog.op (S := effects) o k).events (alone lib) m =
      ⟨o, m.response Source.answers o⟩ ::
        (k (m.response Source.answers o)).events (alone lib)
          (m.after lib 0 (fun _ => none) o) :=
  Prog.events_op (alone_eq ho m)

end Alone

end OJJudge.Storage
