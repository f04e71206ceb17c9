import OJJudge.Session

/-! The handlers of `Judge`.  Three of them serve staff: they look up the role of the session's user
before they do anything else.  The tasks that a callback pushes on its series run after the callback
has returned. -/

namespace OJJudge

open Concurrency

/-- `path.problems_path` of `conf/OJ_Judge.json`. -/
def problems_path : String := "/home/shared/OJ_sys/problems"

/-- The key that counts the uploaded tests of a problem. -/
def counterKey (problem_id : String) : String := problem_id ++ "_total_case_num"

/-- The name of an input file, and the key that marks it as uploaded. -/
def inCaseName (problem_id case_id : String) : String :=
  problem_id ++ "_input_" ++ case_id ++ ".txt"

def outputCaseName (problem_id case_id : String) : String :=
  problem_id ++ "_output_" ++ case_id ++ ".txt"

/-- The role check.  The callback reads the first cell of the first row without a look at the number
of rows. -/
def checkRole (Creater_user_id : String) (next : Code Unit) : Code Unit := do
  let sql_kv ← effect (.query (.selectRole Creater_user_id))
  match sql_kv with
  | (role :: _) :: _ => if role = "student" then effect (.set_status_code "403") else next
  | _ => effect .out_of_range

/-- The file operations of an upload. -/
def storeFile (path : String) (body : Bytes) : Code Unit := do
  let fd ← effect (.openFile path)
  effect (.write fd body)
  effect (.close fd)

/-- The tasks that remove the uploaded tests of a problem. -/
def dropCases (problem_id : String) : Code Unit := do
  let _ ← effect (.query (.deleteTestCases problem_id))
  effect (.del (counterKey problem_id))

/-- The parameters of `add_problem` that it uses. -/
structure ProblemParams where
  problem_id : String
  problem_diffculty : String
  time_limit : String
  mem_limit : String
  is_public : String
  test_num : String

/-- `add_problem`, from the point where the session has named the user. -/
def add_problem (Creater_user_id : String) (params : ProblemParams) (body : Bytes) : Code Unit :=
  checkRole Creater_user_id do
    let sql_kv ← effect (.query (.selectExisting params.problem_id))
    if sql_kv.length > 0 then do
      effect (.set_status_code "409")
      dropCases params.problem_id
    else do
      let loaded_case_num ← my_sync_check_token (counterKey params.problem_id)
      if loaded_case_num ≠ params.test_num then do
        effect (.set_status_code "412")
        effect (.append_output_text "Lack_of_test_cases")
        dropCases params.problem_id
      else do
        storeFile (problems_path ++ "/" ++ params.problem_id) body
        effect (.set_status_code "200")
        let _ ← effect (.query (.insertProblem params.problem_id params.problem_diffculty
          params.time_limit params.mem_limit Creater_user_id params.is_public params.test_num))
        effect (.del (counterKey params.problem_id))

/-- `add_test_in`, from the point where the session has named the user. -/
def add_test_in (conf : IsolateConf) (Creater_user_id problem_id case_id : String) (body : Bytes) :
    Code Unit :=
  checkRole Creater_user_id do
    storeFile (conf.inPath ++ "/" ++ inCaseName problem_id case_id) body
    effect (.set (inCaseName problem_id case_id) "1")
    let _ ← effect (.expire (inCaseName problem_id case_id) 1000)

/-- `add_test_out`, from the point where the session has named the user. -/
def add_test_out (conf : IsolateConf) (Creater_user_id problem_id case_id : String)
    (body : Bytes) : Code Unit :=
  checkRole Creater_user_id do
    let in_val ← my_sync_check_token (inCaseName problem_id case_id)
    if in_val = "1" then do
      storeFile (conf.ansPath ++ "/" ++ outputCaseName problem_id case_id) body
      effect (.set_status_code "200")
      let _ ← effect (.incr (counterKey problem_id))
      let _ ← effect (.query (.insertTestCase problem_id (inCaseName problem_id case_id)
        (outputCaseName problem_id case_id)))
      effect (.del (inCaseName problem_id case_id))
    else do
      effect (.set_status_code "409")
      effect (.append_output_text "no_input_case")

/-- `get_problem_list`, from the point where the session has named the user. -/
def get_problem_list (beginID : String) : Code Unit := do
  let sql_kv ← effect (.query (.selectProblems beginID))
  effect (.append_output_rows sql_kv)
  effect (.set_status_code "200")

/-! ### Operations -/

/-- The operations of `add_problem`. -/
inductive AddProblemOp (Creater_user_id : String) (params : ProblemParams) (body : Bytes) :
    Op → Prop
  | selectRole : AddProblemOp Creater_user_id params body (.query (.selectRole Creater_user_id))
  | out_of_range : AddProblemOp Creater_user_id params body .out_of_range
  | status (code : String) : AddProblemOp Creater_user_id params body (.set_status_code code)
  | text (s : String) : AddProblemOp Creater_user_id params body (.append_output_text s)
  | selectProblem : AddProblemOp Creater_user_id params body
      (.query (.selectExisting params.problem_id))
  | getCounter : AddProblemOp Creater_user_id params body (.get (counterKey params.problem_id))
  | deleteRows : AddProblemOp Creater_user_id params body
      (.query (.deleteTestCases params.problem_id))
  | delCounter : AddProblemOp Creater_user_id params body (.del (counterKey params.problem_id))
  | openFile : AddProblemOp Creater_user_id params body
      (.openFile (problems_path ++ "/" ++ params.problem_id))
  | write (fd : Nat) : AddProblemOp Creater_user_id params body (.write fd body)
  | close (fd : Nat) : AddProblemOp Creater_user_id params body (.close fd)
  | insertProblem : AddProblemOp Creater_user_id params body
      (.query (.insertProblem params.problem_id params.problem_diffculty params.time_limit
        params.mem_limit Creater_user_id params.is_public params.test_num))

/-- The operations of `add_test_in`. -/
inductive AddTestInOp (conf : IsolateConf) (Creater_user_id problem_id case_id : String)
    (body : Bytes) : Op → Prop
  | selectRole : AddTestInOp conf Creater_user_id problem_id case_id body
      (.query (.selectRole Creater_user_id))
  | out_of_range : AddTestInOp conf Creater_user_id problem_id case_id body .out_of_range
  | status (code : String) : AddTestInOp conf Creater_user_id problem_id case_id body
      (.set_status_code code)
  | openFile : AddTestInOp conf Creater_user_id problem_id case_id body
      (.openFile (conf.inPath ++ "/" ++ inCaseName problem_id case_id))
  | write (fd : Nat) : AddTestInOp conf Creater_user_id problem_id case_id body (.write fd body)
  | close (fd : Nat) : AddTestInOp conf Creater_user_id problem_id case_id body (.close fd)
  | setMarker : AddTestInOp conf Creater_user_id problem_id case_id body
      (.set (inCaseName problem_id case_id) "1")
  | expireMarker : AddTestInOp conf Creater_user_id problem_id case_id body
      (.expire (inCaseName problem_id case_id) 1000)

/-- The operations of `add_test_out`. -/
inductive AddTestOutOp (conf : IsolateConf) (Creater_user_id problem_id case_id : String)
    (body : Bytes) : Op → Prop
  | selectRole : AddTestOutOp conf Creater_user_id problem_id case_id body
      (.query (.selectRole Creater_user_id))
  | out_of_range : AddTestOutOp conf Creater_user_id problem_id case_id body .out_of_range
  | status (code : String) : AddTestOutOp conf Creater_user_id problem_id case_id body
      (.set_status_code code)
  | text (s : String) : AddTestOutOp conf Creater_user_id problem_id case_id body
      (.append_output_text s)
  | getMarker : AddTestOutOp conf Creater_user_id problem_id case_id body
      (.get (inCaseName problem_id case_id))
  | openFile : AddTestOutOp conf Creater_user_id problem_id case_id body
      (.openFile (conf.ansPath ++ "/" ++ outputCaseName problem_id case_id))
  | write (fd : Nat) : AddTestOutOp conf Creater_user_id problem_id case_id body (.write fd body)
  | close (fd : Nat) : AddTestOutOp conf Creater_user_id problem_id case_id body (.close fd)
  | count : AddTestOutOp conf Creater_user_id problem_id case_id body
      (.incr (counterKey problem_id))
  | insertTestCase : AddTestOutOp conf Creater_user_id problem_id case_id body
      (.query (.insertTestCase problem_id (inCaseName problem_id case_id)
        (outputCaseName problem_id case_id)))
  | delMarker : AddTestOutOp conf Creater_user_id problem_id case_id body
      (.del (inCaseName problem_id case_id))

/-- The operations of `get_problem_list`. -/
inductive ProblemListOp (beginID : String) : Op → Prop
  | selectProblems : ProblemListOp beginID (.query (.selectProblems beginID))
  | rows (rows : List (List String)) : ProblemListOp beginID (.append_output_rows rows)
  | status (code : String) : ProblemListOp beginID (.set_status_code code)

theorem get_problem_list_only (beginID : String) :
    (get_problem_list beginID).Only (ProblemListOp beginID) :=
  ⟨.selectProblems, fun rows => ⟨.rows rows, fun _ => ⟨.status _, fun _ => trivial⟩⟩⟩

theorem checkRole_only {K : Op → Prop} {Creater_user_id : String} {next : Code Unit}
    (hselect : K (.query (.selectRole Creater_user_id))) (hrange : K .out_of_range)
    (hrefuse : K (.set_status_code "403")) (hnext : next.Only K) :
    (checkRole Creater_user_id next).Only K := by
  refine ⟨hselect, fun sql_kv => ?_⟩
  simp only [Prog.bind_eq, Prog.ret_bind]
  split
  · split
    · exact ⟨hrefuse, fun _ => trivial⟩
    · exact hnext
  · exact ⟨hrange, fun _ => trivial⟩

theorem storeFile_only {K : Op → Prop} {path : String} {body : Bytes} (hopen : K (.openFile path))
    (hwrite : ∀ fd, K (.write fd body)) (hclose : ∀ fd, K (.close fd)) :
    (storeFile path body).Only K :=
  ⟨hopen, fun fd => ⟨hwrite fd, fun _ => ⟨hclose fd, fun _ => trivial⟩⟩⟩

theorem add_problem_only (Creater_user_id : String) (params : ProblemParams) (body : Bytes) :
    (add_problem Creater_user_id params body).Only
      (AddProblemOp Creater_user_id params body) := by
  have hdrop : (dropCases params.problem_id).Only (AddProblemOp Creater_user_id params body) :=
    ⟨.deleteRows, fun _ => ⟨.delCounter, fun _ => trivial⟩⟩
  refine checkRole_only .selectRole .out_of_range (.status _) ?_
  refine ⟨.selectProblem, fun sql_kv => ?_⟩
  simp only [Prog.bind_eq, Prog.ret_bind]
  split
  · exact ⟨.status _, fun _ => hdrop⟩
  · refine ⟨.getCounter, fun v => ?_⟩
    simp only [Prog.bind_eq, Prog.ret_bind, Prog.pure_eq]
    split
    · exact ⟨.status _, fun _ => ⟨.text _, fun _ => hdrop⟩⟩
    · refine (storeFile_only .openFile .write .close).bind fun _ => ?_
      exact ⟨.status _, fun _ => ⟨.insertProblem, fun _ => ⟨.delCounter, fun _ => trivial⟩⟩⟩

variable (conf : IsolateConf) (Creater_user_id problem_id case_id : String) (body : Bytes)

theorem add_test_in_only : (add_test_in conf Creater_user_id problem_id case_id body).Only
    (AddTestInOp conf Creater_user_id problem_id case_id body) := by
  refine checkRole_only .selectRole .out_of_range (.status _) ?_
  refine (storeFile_only .openFile .write .close).bind fun _ => ?_
  exact ⟨.setMarker, fun _ => ⟨.expireMarker, fun _ => trivial⟩⟩

theorem add_test_out_only : (add_test_out conf Creater_user_id problem_id case_id body).Only
    (AddTestOutOp conf Creater_user_id problem_id case_id body) := by
  refine checkRole_only .selectRole .out_of_range (.status _) ?_
  refine ⟨.getMarker, fun v => ?_⟩
  simp only [Prog.bind_eq, Prog.ret_bind, Prog.pure_eq]
  split
  · refine (storeFile_only .openFile .write .close).bind fun _ => ?_
    exact ⟨.status _, fun _ => ⟨.count, fun _ => ⟨.insertTestCase, fun _ => ⟨.delMarker, fun _ =>
      trivial⟩⟩⟩⟩
  · exact ⟨.status _, fun _ => ⟨.text _, fun _ => trivial⟩⟩

namespace Judge

def runCpp (conf : IsolateConf) (req : HttpReq) : Code Unit :=
  withParams req fun KVpairs =>
    session req fun user_name =>
      OJJudge.runCpp conf user_name (KVpairs "porblem_title") req.body

def runState (req : HttpReq) : Code Unit :=
  withParams req fun KVpairs =>
    session req fun user_name => OJJudge.runState user_name (KVpairs "porblem_title")

def add_problem (req : HttpReq) : Code Unit :=
  withParams req fun KVpairs =>
    session req fun Creater_user_id =>
      OJJudge.add_problem Creater_user_id
        { problem_id := KVpairs "problem_id"
          problem_diffculty := KVpairs "problem_diffculty"
          time_limit := KVpairs "time_limit"
          mem_limit := KVpairs "mem_limit"
          is_public := KVpairs "is_public"
          test_num := KVpairs "test_num" } req.body

def add_test_in (conf : IsolateConf) (req : HttpReq) : Code Unit :=
  withParams req fun KVpairs =>
    session req fun Creater_user_id =>
      OJJudge.add_test_in conf Creater_user_id (KVpairs "problem_id") (KVpairs "case_id") req.body

def add_test_out (conf : IsolateConf) (req : HttpReq) : Code Unit :=
  withParams req fun KVpairs =>
    session req fun Creater_user_id =>
      OJJudge.add_test_out conf Creater_user_id (KVpairs "problem_id") (KVpairs "case_id") req.body

def get_problem_list (req : HttpReq) : Code Unit :=
  withParams req fun KVpairs =>
    session req fun _ => OJJudge.get_problem_list (KVpairs "beginID")

end Judge

end OJJudge
