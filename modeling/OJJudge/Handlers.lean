import OJJudge.CppRunner

/-! The handlers `runCpp` and `runState`, from the point where the session has named the user.  The
tasks that a callback pushes on its series run after the callback has returned. -/

namespace OJJudge

open Concurrency

/-- `isspace` in the C locale. -/
def isSpace (c : Char) : Bool := c == ' ' || (9 ≤ c.toNat && c.toNat ≤ 13)

/-- Whether the text begins with a minus sign, and the text after its sign. -/
def splitSign : List Char → Bool × List Char
  | '-' :: text => (true, text)
  | '+' :: text => (false, text)
  | text => (false, text)

/-- `std::stoi`: white space, a sign and digits, and whatever follows them; `none` when it throws,
without digits or outside the range of `int`. -/
def stoi (s : String) : Option Int :=
  let signed := splitSign (s.toList.dropWhile isSpace)
  let digits := signed.2.takeWhile Char.isDigit
  let size : Int := Nat.ofDigitChars 10 digits 0
  let value := if signed.1 then -size else size
  if digits = [] ∨ value < -2147483648 ∨ 2147483647 < value then none else some value

theorem splitSign_digit {d : Char} {ds : List Char} (hd : d.isDigit = true) :
    splitSign (d :: ds) = (false, d :: ds) := by
  unfold splitSign
  split
  · next h => cases h; exact absurd hd (by decide)
  · next h => cases h; exact absurd hd (by decide)
  · rfl

theorem isSpace_digit {d : Char} (hd : d.isDigit = true) : isSpace d = false := by
  have h48 : 48 ≤ d.toNat := by
    simp only [Char.isDigit, Bool.and_eq_true, decide_eq_true_eq] at hd
    exact UInt32.le_iff_toNat_le.mp hd.1
  have hne : d ≠ ' ' := by rintro rfl; exact absurd h48 (by decide)
  simp [isSpace, hne]
  omega

/-- `std::stoi` reads back a count when it fits `int`, and throws when it does not. -/
theorem stoi_toString (n : Nat) :
    stoi (toString n) = if n ≤ 2147483647 then some (n : Int) else none := by
  have hlist : (toString n).toList = Nat.toDigits 10 n := by simp
  have hall : ∀ c ∈ Nat.toDigits 10 n, c.isDigit = true := fun c hc =>
    Nat.isDigit_of_mem_toDigits (by decide) (by decide) hc
  obtain ⟨d, ds, hds⟩ := List.exists_cons_of_ne_nil (Nat.toDigits_ne_nil (n := n) (b := 10))
  have hd : d.isDigit = true := hall d (by simp [hds])
  have hsigned : splitSign ((toString n).toList.dropWhile isSpace) =
      (false, Nat.toDigits 10 n) := by
    rw [hlist, hds, List.dropWhile_cons_of_neg (by simp [isSpace_digit hd]), splitSign_digit hd]
  have hdigits : (Nat.toDigits 10 n).takeWhile Char.isDigit = Nat.toDigits 10 n :=
    List.takeWhile_eq_self_iff.mpr hall
  simp only [stoi, hsigned, hdigits, Nat.ofDigitChars_ten_toDigits, Nat.toDigits_ne_nil,
    Bool.false_eq_true, if_false, false_or]
  split <;> split <;> first | rfl | omega

/-- The callback that gets the rows of `test_cases` and queues the job.  The job itself follows, on
the pool worker that pops it. -/
def TaskPush (conf : IsolateConf) (file_name porblem_id : String) (mysql_kv : List (List String)) :
    Code Unit :=
  if mysql_kv.length = 0 then
    effect (.set_status_code "409")
  else do
    let task : Runner_task :=
      { path := conf.waiting_judge
        file_name := file_name
        porblem_id := porblem_id
        test_num := mysql_kv.length
        test_vec := mysql_kv.map fun cow => (cow.getD 0 "", cow.getD 1 "")
        test_num_eq := by simp }
    effect (.push task)
    effect (.set_status_code "200")
    cpp_runner conf task

/-- A submission, from the look-up of the problem to the end of its job. -/
def runCpp (conf : IsolateConf) (user_name porblem_title : String) (body : Bytes) :
    Code Unit := do
  let sql_kv ← effect (.query (.selectProblemId porblem_title))
  if sql_kv.length > 0 then do
    let fd ← effect (.openFile (uploadPath conf user_name porblem_title))
    effect (.write fd body)
    effect (.close fd)
    effect (.set_status_code "200")
    -- The tasks of the series.
    effect (.set (judgeKey (fileName user_name porblem_title)) "0")
    let _ ← effect (.expire (judgeKey (fileName user_name porblem_title)) 40)
    effect (.set (sumKey (fileName user_name porblem_title)) "0")
    let _ ← effect (.expire (sumKey (fileName user_name porblem_title)) 40)
    let mysql_kv ← effect (.query (.selectTestCases porblem_title))
    TaskPush conf (fileName user_name porblem_title) porblem_title mysql_kv
  else
    effect (.set_status_code "409")

/-- The operations that a submission runs, those of its job among them. -/
inductive SubmissionOp (conf : IsolateConf) (user_name porblem_title : String) (body : Bytes) :
    Op → Prop
  | selectProblem : SubmissionOp conf user_name porblem_title body
      (.query (.selectProblemId porblem_title))
  | openFile : SubmissionOp conf user_name porblem_title body
      (.openFile (uploadPath conf user_name porblem_title))
  | write (fd : Nat) : SubmissionOp conf user_name porblem_title body (.write fd body)
  | close (fd : Nat) : SubmissionOp conf user_name porblem_title body (.close fd)
  | status (code : String) : SubmissionOp conf user_name porblem_title body (.set_status_code code)
  | setJudge : SubmissionOp conf user_name porblem_title body
      (.set (judgeKey (fileName user_name porblem_title)) "0")
  | expireJudge : SubmissionOp conf user_name porblem_title body
      (.expire (judgeKey (fileName user_name porblem_title)) 40)
  | reset : SubmissionOp conf user_name porblem_title body
      (.set (sumKey (fileName user_name porblem_title)) "0")
  | expireSum : SubmissionOp conf user_name porblem_title body
      (.expire (sumKey (fileName user_name porblem_title)) 40)
  | selectTests : SubmissionOp conf user_name porblem_title body
      (.query (.selectTestCases porblem_title))
  | push (task : Runner_task) : SubmissionOp conf user_name porblem_title body (.push task)
  | job {o : Op} (task : Runner_task) (hpath : task.path = conf.waiting_judge)
      (hname : task.file_name = fileName user_name porblem_title) (ho : RunnerOp conf task o) :
      SubmissionOp conf user_name porblem_title body o

theorem runCpp_only (conf : IsolateConf) (user_name porblem_title : String) (body : Bytes) :
    (runCpp conf user_name porblem_title body).Only
      (SubmissionOp conf user_name porblem_title body) := by
  simp only [runCpp, TaskPush, effect_eq, Prog.op_bind, Prog.ret_bind]
  refine ⟨.selectProblem, fun sql_kv => ?_⟩
  dsimp only
  split
  · refine ⟨.openFile, fun fd => ⟨.write fd, fun _ => ⟨.close fd, fun _ => ⟨.status _, fun _ =>
      ⟨.setJudge, fun _ => ⟨.expireJudge, fun _ => ⟨.reset, fun _ => ⟨.expireSum, fun _ =>
      ⟨.selectTests, fun mysql_kv => ?_⟩⟩⟩⟩⟩⟩⟩⟩⟩
    dsimp only
    split
    · exact ⟨.status _, fun _ => trivial⟩
    · refine ⟨.push _, fun _ => ⟨.status _, fun _ => ?_⟩⟩
      exact (cpp_runner_only conf _).mono fun o ho => .job _ rfl rfl ho
  · exact ⟨.status _, fun _ => trivial⟩

/-- The loop of `runState` over the per-test keys, with the codes read so far. -/
def readCodes (file_name : String) : Nat → List String → Code (List String)
  | 0, codes => return codes
  | n + 1, codes => do
    let redis_status_code ← my_sync_check_token (testKey file_name codes.length)
    readCodes file_name n
      (codes ++ [if redis_status_code = "" then "0" else redis_status_code])

/-- The tasks that delete the per-test keys from `i` on. -/
def deleteKeys (file_name : String) : Nat → Nat → Code Unit
  | _, 0 => return ()
  | i, n + 1 => do
    effect (.del (testKey file_name i))
    deleteKeys file_name (i + 1) n

/-- A poll.  When `std::stoi` throws, the callback ends without an answer. -/
def runState (user_name porblem_title : String) : Code Unit := do
  let sql_kv ← effect (.query (.selectTestNum porblem_title))
  match sql_kv with
  | [] => effect (.set_status_code "409")
  | row :: _ => do
    let test_num := row.getD 0 ""
    let pass_num ← my_sync_check_token (sumKey (fileName user_name porblem_title))
    match stoi test_num with
    | none => return ()
    | some n => do
      let codes ← readCodes (fileName user_name porblem_title) n.toNat []
      let un_finished_count := codes.count "0"
      effect (.append_output_body ⟨test_num, pass_num, codes⟩)
      effect (.set_status_code "200")
      if un_finished_count = 0 then do
        let _ ← effect (.query (.insertSubmission user_name porblem_title
          (if test_num = pass_num then "Pass" else "Unpass")))
        deleteKeys (fileName user_name porblem_title) 0 n.toNat

/-- The operations that a poll runs. -/
inductive StateOp (user_name porblem_title : String) : Op → Prop
  | selectTestNum : StateOp user_name porblem_title (.query (.selectTestNum porblem_title))
  | status (code : String) : StateOp user_name porblem_title (.set_status_code code)
  | getSum : StateOp user_name porblem_title (.get (sumKey (fileName user_name porblem_title)))
  | getTest (i : Nat) : StateOp user_name porblem_title
      (.get (testKey (fileName user_name porblem_title) i))
  | body (body : StateBody) : StateOp user_name porblem_title (.append_output_body body)
  | insertSubmission (result : String) : StateOp user_name porblem_title
      (.query (.insertSubmission user_name porblem_title result))
  | delTest (i : Nat) : StateOp user_name porblem_title
      (.del (testKey (fileName user_name porblem_title) i))

theorem readCodes_only (user_name porblem_title : String) (n : Nat) (codes : List String) :
    (readCodes (fileName user_name porblem_title) n codes).Only
      (StateOp user_name porblem_title) := by
  induction n generalizing codes with
  | zero => trivial
  | succ n ih =>
    simp only [readCodes, my_sync_check_token, effect_eq, Prog.op_bind, Prog.ret_bind,
      Prog.pure_eq]
    exact ⟨.getTest codes.length, fun v => ih _⟩

theorem deleteKeys_only (user_name porblem_title : String) (n i : Nat) :
    (deleteKeys (fileName user_name porblem_title) i n).Only (StateOp user_name porblem_title) := by
  induction n generalizing i with
  | zero => trivial
  | succ n ih => exact ⟨.delTest i, fun _ => ih (i + 1)⟩

theorem runState_only (user_name porblem_title : String) :
    (runState user_name porblem_title).Only (StateOp user_name porblem_title) := by
  refine ⟨.selectTestNum, fun rows => ?_⟩
  cases rows with
  | nil => exact ⟨.status _, fun _ => trivial⟩
  | cons row rest =>
    refine ⟨.getSum, fun pass_num => ?_⟩
    simp only [Prog.bind_eq, Prog.ret_bind, Prog.pure_eq]
    split
    · trivial
    · refine (readCodes_only _ _ _ _).bind fun codes => ?_
      simp only [effect_eq, Prog.op_bind, Prog.ret_bind]
      refine ⟨.body _, fun _ => ⟨.status _, fun _ => ?_⟩⟩
      split
      · exact ⟨.insertSubmission _, fun _ => deleteKeys_only _ _ _ _⟩
      · trivial

end OJJudge
