import OJJudge.Source.Machine
import OJJudge.Staff

/-! The uploads under every outcome of their queries.  `mysqlRespCheck` folds a failed task, an error
packet and an answer without rows into the same empty vector. -/

namespace OJJudge

open Concurrency

/-- The outcome of a query: the task fails, or it gets a reply with result sets. -/
inductive Outcome
  | task_error
  | reply (error_packet : Bool) (result_sets : List (List (List String)))
  deriving DecidableEq

/-- The rows that a callback gets.  An error packet is only printed. -/
def mysqlRespCheck : Outcome → List (List String)
  | .task_error => []
  | .reply _ result_sets => result_sets.flatten

def Outcome.succeeded : Outcome → Bool
  | .task_error => false
  | .reply error_packet _ => !error_packet

/-- The response to an operation when the queries have these outcomes. -/
def respond (outcome : Stmt → Outcome) (answer : (o : Op) → o.Res) : (o : Op) → o.Res
  | .query stmt => mysqlRespCheck (outcome stmt)
  | o => answer o

@[simp] theorem respond_query (outcome : Stmt → Outcome) (answer : (o : Op) → o.Res) (stmt : Stmt) :
    respond outcome answer (.query stmt) = mysqlRespCheck (outcome stmt) := rfl

@[simp] theorem respond_get (outcome : Stmt → Outcome) (answer : (o : Op) → o.Res) (key : String) :
    respond outcome answer (.get key) = answer (.get key) := rfl

/-- The events of a handler when the queries have these outcomes. -/
def traceOf (outcome : Stmt → Outcome) (answer : (o : Op) → o.Res) (p : Code Unit) :
    List (Event effects) :=
  p.events (fun o (_ : Unit) => some (respond outcome answer o, ())) ()

/-- What a handler may do that serves a user: it reads no row or cell that is not there, writes a file
or inserts a row only when the role query has returned a row, and inserts a problem only when its
existence query has succeeded without a row. -/
def Allowed (outcome : Stmt → Outcome) (Creater_user_id : String) : Op → Prop
  | .out_of_range => False
  | .openFile _ | .write _ _ | .query (.insertTestCase _ _ _) | .query (.insertSubmission _ _ _)
  | .query (.insertUser _ _ _) =>
    mysqlRespCheck (outcome (.selectRole Creater_user_id)) ≠ []
  | .query (.insertProblem title _ _ _ _ _ _) =>
    mysqlRespCheck (outcome (.selectRole Creater_user_id)) ≠ [] ∧
      (outcome (.selectExisting title)).succeeded = true ∧
      mysqlRespCheck (outcome (.selectExisting title)) = []
  | _ => True

/-- The handlers that serve staff. -/
inductive Upload
  | add_problem (params : ProblemParams)
  | add_test_in (problem_id case_id : String)
  | add_test_out (problem_id case_id : String)

/-- The handler, from the point where the session has named the user. -/
def Upload.prog (conf : IsolateConf) (Creater_user_id : String) (body : Bytes) : Upload → Code Unit
  | add_problem params => OJJudge.add_problem Creater_user_id params body
  | add_test_in problem_id case_id => OJJudge.add_test_in conf Creater_user_id problem_id case_id body
  | add_test_out problem_id case_id =>
    OJJudge.add_test_out conf Creater_user_id problem_id case_id body

section Withstands

variable (outcome : Stmt → Outcome) (answer : (o : Op) → o.Res) (Creater_user_id : String)

/-- Everything that the program does is allowed. -/
def Withstands (p : Code Unit) : Prop :=
  ∀ e ∈ traceOf outcome answer p, Allowed outcome Creater_user_id e.op

/-- The first row of the role query has this role in its first cell. -/
def RoleFound (role : String) : Prop :=
  ∃ cells rest, mysqlRespCheck (outcome (.selectRole Creater_user_id)) = (role :: cells) :: rest

/-- The insertion of a problem is not reached, or the existence query has not failed. -/
def ExistenceAnswered (role : String) : Upload → Prop
  | .add_problem params =>
    role = "student" ∨ mysqlRespCheck (outcome (.selectExisting params.problem_id)) ≠ [] ∨
      (answer (.get (counterKey params.problem_id))).getD "" ≠ params.test_num ∨
      (outcome (.selectExisting params.problem_id)).succeeded = true
  | .add_test_in _ _ | .add_test_out _ _ => True

variable {outcome answer Creater_user_id}

@[simp] theorem withstands_ret (a : Unit) : Withstands outcome answer Creater_user_id (.ret a) := by
  simp [Withstands, traceOf, Prog.events]

@[simp] theorem withstands_op {o : Op} {k : o.Res → Code Unit} :
    Withstands outcome answer Creater_user_id (.op (S := effects) o k) ↔
      Allowed outcome Creater_user_id o ∧
        Withstands outcome answer Creater_user_id (k (respond outcome answer o)) := by
  simp [Withstands, traceOf, Prog.events]

/-- The role check fails on an answer without a first cell. -/
theorem withstands_checkRole {next : Code Unit} :
    Withstands outcome answer Creater_user_id (checkRole Creater_user_id next) ↔
      ∃ role, RoleFound outcome Creater_user_id role ∧
        (role = "student" ∨ Withstands outcome answer Creater_user_id next) := by
  simp only [checkRole, effect_eq, Prog.op_bind, Prog.ret_bind, withstands_op, respond_query, Allowed,
    true_and]
  unfold RoleFound
  split
  · next role cells rest hrows =>
    rw [hrows]
    split
    · next hstudent => simp [Allowed, hstudent]
    · next hstaff => simp [hstaff]
  · next hrows =>
    simp only [withstands_op, Allowed, false_and, false_iff]
    rintro ⟨role, ⟨cells, rest, h⟩, -⟩
    exact hrows role cells rest h

theorem withstands_storeFile {path : String} {body : Bytes} {next : Code Unit}
    (hrow : mysqlRespCheck (outcome (.selectRole Creater_user_id)) ≠ []) :
    Withstands outcome answer Creater_user_id (storeFile path body >>= fun _ => next) ↔
      Withstands outcome answer Creater_user_id next := by
  simp only [storeFile, effect_eq, Prog.op_bind, Prog.ret_bind, withstands_op, Allowed]
  simp [hrow]

theorem withstands_dropCases (problem_id : String) :
    Withstands outcome answer Creater_user_id (dropCases problem_id) := by
  simp [dropCases, Allowed]

theorem RoleFound.ne_nil {role : String} (h : RoleFound outcome Creater_user_id role) :
    mysqlRespCheck (outcome (.selectRole Creater_user_id)) ≠ [] := by
  obtain ⟨cells, rest, h⟩ := h
  rw [h]
  exact List.cons_ne_nil _ _

/-- A handler withstands the outcomes of its queries exactly when the role query has a first row with a
first cell, and `add_problem` does not go on to insert after its existence query has failed. -/
theorem upload_withstands_iff (conf : IsolateConf) (outcome : Stmt → Outcome)
    (answer : (o : Op) → o.Res) (Creater_user_id : String) (body : Bytes) (upload : Upload) :
    Withstands outcome answer Creater_user_id (upload.prog conf Creater_user_id body) ↔
      ∃ role, RoleFound outcome Creater_user_id role ∧ ExistenceAnswered outcome answer role upload := by
  cases upload with
  | add_problem params =>
    show Withstands _ _ _ (checkRole _ _) ↔ _
    rw [withstands_checkRole]
    refine exists_congr fun role => and_congr_right fun hrole => ?_
    have hrow := hrole.ne_nil
    refine or_congr_right ?_
    by_cases hexists : mysqlRespCheck (outcome (.selectExisting params.problem_id)) = []
    · by_cases hloaded : (answer (.get (counterKey params.problem_id))).getD "" = params.test_num
      · simp only [effect_eq, Prog.op_bind, Prog.ret_bind, withstands_op, respond_query, respond_get,
          hexists, my_sync_check_token, Prog.pure_eq, List.length_nil, gt_iff_lt, Nat.lt_irrefl,
          if_false, hloaded, ne_eq, not_true_eq_false]
        rw [withstands_storeFile hrow]
        simp [Allowed, hexists, hrow]
      · simp [Allowed, hexists, hloaded, my_sync_check_token, withstands_dropCases]
    · have hlength : (mysqlRespCheck (outcome (.selectExisting params.problem_id))).length > 0 :=
        List.length_pos_iff.mpr hexists
      simp [Allowed, hexists, hlength, withstands_dropCases]
  | add_test_in problem_id case_id =>
    show Withstands _ _ _ (checkRole _ _) ↔ _
    rw [withstands_checkRole]
    refine exists_congr fun role => and_congr_right fun hrole => ?_
    rw [withstands_storeFile hrole.ne_nil]
    simp [ExistenceAnswered, Allowed]
  | add_test_out problem_id case_id =>
    show Withstands _ _ _ (checkRole _ _) ↔ _
    rw [withstands_checkRole]
    refine exists_congr fun role => and_congr_right fun hrole => ?_
    have hrow := hrole.ne_nil
    simp only [my_sync_check_token, effect_eq, Prog.op_bind, Prog.ret_bind, Prog.pure_eq, withstands_op,
      respond_get, Allowed, true_and, ExistenceAnswered]
    by_cases hmarker : (answer (.get (inCaseName problem_id case_id))).getD "" = "1"
    · simp only [hmarker, if_true]
      rw [withstands_storeFile hrow]
      simp [Allowed, hrow]
    · simp [hmarker, Allowed]

end Withstands

/-- Without an answer to the role query, the callback reads the first row of an empty vector.  An error
packet for the existence query counts as "no such problem", and the problem is inserted. -/
theorem upload_fails :
    ¬Withstands (fun _ => .task_error) Source.answers "bob"
        ((Upload.add_test_in "p" "1").prog OJ_Judge "bob" []) ∧
      ¬Withstands
        (fun stmt => if stmt = .selectRole "bob" then .reply false [[["teacher"]]] else .reply true [])
        (Function.update Source.answers (.get (counterKey "p")) (some "1")) "bob"
        ((Upload.add_problem ⟨"p", "1", "1", "64", "1", "1"⟩).prog OJ_Judge "bob" []) := by
  constructor
  · intro h
    exact h ⟨.out_of_range, ()⟩ (.tail _ (.head _))
  · intro h
    have hop : Op.query (.insertProblem "p" "1" "1" "64" "bob" "1" "1") ∈ (traceOf
        (fun stmt => if stmt = .selectRole "bob" then .reply false [[["teacher"]]] else .reply true [])
        (Function.update Source.answers (.get (counterKey "p")) (some "1"))
        ((Upload.add_problem ⟨"p", "1", "1", "64", "1", "1"⟩).prog OJ_Judge "bob" [])).map (·.op) := by
      decide +kernel
    obtain ⟨e, he, heq⟩ := List.mem_map.mp hop
    have hinsert := h e he
    rw [heq] at hinsert
    exact absurd hinsert.2.1 (by decide)

end OJJudge
