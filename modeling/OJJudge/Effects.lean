import OJJudge.Names
import OJJudge.Concurrency.Prog

/-! The atomic effects of the judge's handlers and pool jobs: single Redis commands, single SQL
statements, file system calls, spawned commands, the sandbox mutex, `crypt` and the parts of a
response. -/

namespace OJJudge

open Concurrency

abbrev Bytes := List UInt8

/-- A job of the pool. -/
structure Runner_task where
  path : String
  file_name : String
  porblem_id : String
  test_num : Nat
  /-- The input file and the answer file of each test. -/
  test_vec : List (String × String)
  test_num_eq : test_num = test_vec.length
  deriving DecidableEq

/-- The commands that `cpp_runner` spawns. -/
inductive Cmd
  | gpp (source out : String)
  | cp (source target : String)
  | rm (path : String)
  | isolateInit
  | isolateRun
  | isolateCleanup
  deriving DecidableEq

/-- The text handed to `system_spawn_cmd`. -/
def Cmd.text : Cmd → String
  | gpp source out => "/usr/bin/g++ " ++ source ++ " -o " ++ out
  | cp source target => "/usr/bin/cp " ++ source ++ " " ++ target
  | rm path => "/usr/bin/rm " ++ path
  | isolateInit => "/usr/local/bin/isolate --init --box-id=1"
  | isolateRun => "/usr/local/bin/isolate --box-id=1   --processes=1   --mem=65536   " ++
      "--wall-time=2   --stdin=input.txt   --stdout=output.txt   --stderr=error.txt   " ++
      "--run /box/runner"
  | isolateCleanup => "/usr/local/bin/isolate --cleanup --box-id=1"

/-- The SQL statements of the handlers. -/
inductive Stmt
  | selectProblemId (title : String)
  /-- The query with which `add_problem` looks for a problem that exists. -/
  | selectExisting (title : String)
  | selectTestCases (problem_id : String)
  | selectTestNum (title : String)
  | insertSubmission (user_id problem_id result : String)
  | selectRole (username : String)
  | deleteTestCases (problem_id : String)
  | insertProblem (title difficulty time_limit memory_limit author_id is_public test_num : String)
  | insertTestCase (problem_id input_file_path output_file_path : String)
  | selectProblems (beginID : String)
  | insertUser (username password_hash role : String)
  | selectLogin (username password_hash : String)
  deriving DecidableEq

/-- The text of a statement. -/
def Stmt.sql : Stmt → String
  | selectProblemId title =>
    "SELECT problem_id FROM  problems_cpp WHERE title = \"" ++ title ++ "\";"
  | selectExisting title =>
    "SELECT problem_id FROM problems_cpp WHERE title = \"" ++ title ++ "\";"
  | selectTestCases problem_id =>
    "SELECT input_file_path, output_file_path FROM test_cases WHERE problem_id = \"" ++
      problem_id ++ "\";"
  | selectTestNum title =>
    "SELECT test_num FROM problems_cpp WHERE title = \"" ++ title ++ "\";"
  | insertSubmission user_id problem_id result =>
    "INSERT INTO submissions (user_id, problem_id, language, result) VALUES(\"" ++ user_id ++
      "\", \"" ++ problem_id ++ "\", \"cpp\", \"" ++ result ++ "\");"
  | selectRole username =>
    "SELECT role FROM user_table WHERE username = \"" ++ username ++ "\";"
  | deleteTestCases problem_id =>
    "DELETE FROM test_cases WHERE problem_id = \"" ++ problem_id ++ "\";"
  | insertProblem title difficulty time_limit memory_limit author_id is_public test_num =>
    "INSERT INTO problems_cpp (title, difficulty, time_limit, memory_limit, author_id, " ++
      "is_public, test_num) VALUES (\"" ++ title ++ "\", \"" ++ difficulty ++ "\", \"" ++
      time_limit ++ "\", \"" ++ memory_limit ++ "\", \"" ++ author_id ++ "\", \"" ++
      is_public ++ "\", \"" ++ test_num ++ "\");"
  | insertTestCase problem_id input_file_path output_file_path =>
    "INSERT INTO test_cases (problem_id, input_file_path, output_file_path) VALUES (\"" ++
      problem_id ++ "\", \"" ++ input_file_path ++ "\", \"" ++ output_file_path ++ "\");"
  | selectProblems beginID =>
    "SELECT title, difficulty, author_id  FROM problems_cpp WHERE problem_id >= " ++ beginID ++
      " AND is_public = 1 LIMIT 10;"
  | insertUser username password_hash role =>
    "INSERT INTO user_table (username, password_hash, role, email) VALUES (\"" ++ username ++
      "\", \"" ++ password_hash ++ "\", \"" ++ role ++ "\", \"000\");"
  | selectLogin username password_hash =>
    "SELECT role, username FROM user_table WHERE username = \"" ++ username ++
      "\" AND password_hash = \"" ++ password_hash ++ "\";"

/-- The body of an answer of `runState`: the fields `total_test_num` and `total_pass_num`, and the
field `problem_i` for each test `i`. -/
structure StateBody where
  total_test_num : String
  total_pass_num : String
  problem : List String
  deriving DecidableEq

/-- The fields of `struct tm` that a token has. -/
structure Tm where
  tm_hour : Nat
  tm_min : Nat
  tm_sec : Nat
  deriving DecidableEq

inductive Op
  | get (key : String)
  | set (key value : String)
  | incr (key : String)
  | expire (key : String) (seconds : Nat)
  | del (key : String)
  | query (stmt : Stmt)
  /-- `open(path, O_RDWR | O_CREAT, mode)`, where `mode` is 0775 for a submission and 0666 for an
  upload. -/
  | openFile (path : String)
  | write (fd : Nat) (body : Bytes)
  | close (fd : Nat)
  /-- `isolate_pool->push(cpp_runner, task)`. -/
  | push (task : Runner_task)
  | spawn (cmd : Cmd)
  | lock
  | unlock
  | file_cmp (path1 path2 : String)
  | set_status_code (code : String)
  | append_output_body (body : StateBody)
  | append_output_text (text : String)
  /-- `append_output_body` of a JSON array of rows. -/
  | append_output_rows (rows : List (List String))
  /-- `resp->String`. -/
  | send_string (text : String)
  | add_header (name value : String)
  /-- `crypt(key, salt)`, which leaves its result in a static buffer. -/
  | crypt (key salt : String)
  /-- A read of the buffer of `crypt`. -/
  | crypt_buffer
  | localtime
  /-- A read of a row that is not there, with which the process ends. -/
  | out_of_range
  deriving DecidableEq

/-- The type of the response to an effect. -/
@[reducible] def Op.Res : Op → Type
  | get _ => Option String
  | incr _ => Int
  | expire _ _ => Bool
  | query _ => List (List String)
  | openFile _ => Nat
  | spawn _ | unlock => Int32
  | file_cmp _ _ => Int
  | crypt_buffer => String
  | localtime => Tm
  | _ => Unit

@[reducible] def effects : Sig := ⟨Op, Op.Res⟩

abbrev Code (α : Type) := Prog effects α

def effect (o : Op) : Code o.Res := Prog.call (S := effects) o

@[simp] theorem effect_eq (o : Op) : effect o = Prog.op (S := effects) o Prog.ret := rfl

/-! ### Redis -/

/-- The value of a bound key, or the empty string. -/
def my_sync_check_token (token : String) : Code String := do
  let val ← effect (.get token)
  return val.getD ""

def redis_set_field (key value : String) : Code Unit := effect (.set key value)

def redis_incr (key : String) : Code Int := effect (.incr key)

def redis_expire (key : String) (seconds : Nat) : Code Bool := effect (.expire key seconds)

def system_spawn_cmd (cmd : Cmd) : Code Int32 := effect (.spawn cmd)

def file_cmp (path1 path2 : String) : Code Int := effect (.file_cmp path1 path2)

/-- The value of decimal digits, after a minus sign or without one. -/
def signedValue : List Char → Int
  | '-' :: ds => -(Nat.ofDigitChars 10 ds 0 : Int)
  | ds => (Nat.ofDigitChars 10 ds 0 : Int)

/-- The integer that Redis reads from a string: the string has to be its decimal form. -/
def readInt (v : String) : Option Int :=
  if (signedValue v.toList).repr = v then some (signedValue v.toList) else none

theorem signedValue_toDigits (n : Nat) : signedValue (Nat.toDigits 10 n) = n := by
  unfold signedValue
  split
  · next ds h =>
    have hdigit := Nat.isDigit_of_mem_toDigits (b := 10) (by decide) (by decide)
      (show '-' ∈ Nat.toDigits 10 n by simp [h])
    exact absurd hdigit (by decide)
  · rw [Nat.ofDigitChars_ten_toDigits]

theorem signedValue_repr (x : Int) : signedValue x.repr.toList = x := by
  rw [Int.repr_eq_if]
  split
  · next h =>
    rw [Nat.toList_repr, signedValue_toDigits]
    omega
  · next h =>
    have hlist : ("-" ++ (-x).toNat.repr).toList = '-' :: Nat.toDigits 10 (-x).toNat := by simp
    rw [hlist, signedValue, Nat.ofDigitChars_ten_toDigits]
    omega

@[simp] theorem repr_natCast (n : Nat) : (n : Int).repr = n.repr := by
  simp [Int.repr_eq_if]

/-- Redis reads back the integers that it prints. -/
@[simp] theorem readInt_repr (x : Int) : readInt x.repr = some x := by
  simp [readInt, signedValue_repr]

/-- The value of a key after `INCR`; a value that is no integer stays, and the command fails. -/
def incrValue : Option String → Option String
  | none => some (1 : Int).repr
  | some v =>
    match readInt v with
    | some x => some (x + 1).repr
    | none => some v

@[simp] theorem incrValue_repr (x : Int) : incrValue (some x.repr) = some (x + 1).repr := by
  simp [incrValue]

@[simp] theorem incrValue_repr_nat (n : Nat) : incrValue (some n.repr) = some (n + 1).repr := by
  rw [← repr_natCast, incrValue_repr, ← repr_natCast, Nat.cast_add_one]

/-- The response of `redis_incr`. -/
def incrReply : Option String → Int
  | none => 1
  | some v =>
    match readInt v with
    | some x => x + 1
    | none => -1

end OJJudge
