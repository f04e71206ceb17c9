import OJJudge.Storage.Machine

/-! What the three uploading handlers do to the tables, the keys and the files.  `Upload.next` and
`Upload.stores` state it abstractly, and `Upload.runs_next` shows that a complete request does
exactly that. -/

namespace OJJudge.Storage

open Concurrency

/-- An upload, from the point where the session has named the user. -/
inductive Upload
  | testIn (user problem_id case_id : String) (body : Bytes)
  | testOut (user problem_id case_id : String) (body : Bytes)
  | problem (user : String) (params : ProblemParams) (body : Bytes)

def Upload.prog : Upload → Code Unit
  | testIn user problem_id case_id body => add_test_in OJ_Judge user problem_id case_id body
  | testOut user problem_id case_id body => add_test_out OJ_Judge user problem_id case_id body
  | problem user params body => add_problem user params body

/-- What the uploads work on. -/
structure Tables where
  redis : String → Option String
  user_table : List Account
  problems_cpp : List Problem
  test_cases : List TestCase

def Memory.tables (m : Memory) : Tables := ⟨m.redis, m.user_table, m.problems_cpp, m.test_cases⟩

namespace Tables

/-- The user's look-up gives a role, and not that of a student. -/
def isStaff (s : Tables) (user : String) : Bool :=
  match s.user_table.find? (·.username = user) with
  | some account => account.role ≠ "student"
  | none => false

/-- The problem is in `problems_cpp`. -/
def Registered (s : Tables) (problem_id : String) : Prop :=
  ∃ problem ∈ s.problems_cpp, problem.title = problem_id

instance (s : Tables) (problem_id : String) : Decidable (s.Registered problem_id) :=
  inferInstanceAs (Decidable (∃ problem ∈ s.problems_cpp, _))

/-- The rows of `test_cases` for a problem. -/
def cases (s : Tables) (problem_id : String) : List TestCase :=
  s.test_cases.filter (·.problem_id = problem_id)

def setRedis (s : Tables) (key : String) (value : Option String) : Tables :=
  { s with redis := Function.update s.redis key value }

/-- No rows and no counter for the problem. -/
def drop (s : Tables) (problem_id : String) : Tables :=
  { s with
    redis := Function.update s.redis (counterKey problem_id) none
    test_cases := s.test_cases.filter (·.problem_id ≠ problem_id) }

/-- One more test, counted, and its marker removed. -/
def addCase (s : Tables) (problem_id case_id : String) : Tables :=
  { s with
    redis := Function.update (Function.update s.redis (counterKey problem_id)
      (incrValue (s.redis (counterKey problem_id)))) (inCaseName problem_id case_id) none
    test_cases := s.test_cases ++
      [⟨problem_id, inCaseName problem_id case_id, outputCaseName problem_id case_id⟩] }

/-- The problem is registered, and its counter removed. -/
def register (s : Tables) (user : String) (params : ProblemParams) : Tables :=
  { s with
    redis := Function.update s.redis (counterKey params.problem_id) none
    problems_cpp := s.problems_cpp ++ [⟨s.problems_cpp.length + 1, params.problem_id,
      params.problem_diffculty, params.time_limit, params.mem_limit, user, params.is_public,
      params.test_num⟩] }

/-- `add_test_out` accepts the answer file. -/
def acceptsOut (s : Tables) (user problem_id case_id : String) : Bool :=
  s.isStaff user && s.redis (inCaseName problem_id case_id) = some "1"

/-- `add_problem` registers the problem. -/
def acceptsProblem (s : Tables) (user : String) (params : ProblemParams) : Bool :=
  s.isStaff user && !decide (s.Registered params.problem_id) &&
    (s.redis (counterKey params.problem_id)).getD "" = params.test_num

theorem acceptsOut_iff {s : Tables} {user problem_id case_id : String} :
    s.acceptsOut user problem_id case_id = true ↔
      s.isStaff user = true ∧ s.redis (inCaseName problem_id case_id) = some "1" := by
  simp [acceptsOut]

theorem acceptsProblem_iff {s : Tables} {user : String} {params : ProblemParams} :
    s.acceptsProblem user params = true ↔ s.isStaff user = true ∧
      ¬s.Registered params.problem_id ∧
      (s.redis (counterKey params.problem_id)).getD "" = params.test_num := by
  simp [acceptsProblem, and_assoc]

end Tables

/-- The tables and the keys after an upload. -/
def Upload.next (s : Tables) : Upload → Tables
  | testIn user problem_id case_id _ =>
    if s.isStaff user then s.setRedis (inCaseName problem_id case_id) (some "1") else s
  | testOut user problem_id case_id _ =>
    if s.acceptsOut user problem_id case_id then s.addCase problem_id case_id else s
  | problem user params _ =>
    if s.acceptsProblem user params then s.register user params
    else if s.isStaff user then s.drop params.problem_id
    else s

/-- The file that an upload writes, and the bytes that it writes there. -/
def Upload.stores (s : Tables) : Upload → Option (String × Bytes)
  | testIn user problem_id case_id body =>
    if s.isStaff user then some (OJ_Judge.inPath ++ "/" ++ inCaseName problem_id case_id, body)
    else none
  | testOut user problem_id case_id body =>
    if s.acceptsOut user problem_id case_id then
      some (OJ_Judge.ansPath ++ "/" ++ outputCaseName problem_id case_id, body)
    else none
  | problem user params body =>
    if s.acceptsProblem user params then some (problems_path ++ "/" ++ params.problem_id, body)
    else none

/-- The bytes of a file after a write: those behind the written ones stay. -/
def overwrite (old : Option Bytes) (body : Bytes) : Bytes := body ++ (old.getD []).drop body.length

/-- The files after a write. -/
def putFile (files : String → Option Bytes) : Option (String × Bytes) → String → Option Bytes
  | none => files
  | some (path, body) => Function.update files path (some (overwrite (files path) body))

/-! ### The handlers do what `Upload.next` and `Upload.stores` say -/

section Runs

variable {lib : Library}

/-- The rows of the role look-up begin with the role of a staff user, that of a student, or do not
exist. -/
theorem rows_selectRole (user : String) (m : Memory) (page : List (List String)) :
    (m.tables.isStaff user = true ∧ ∃ role rest,
      m.rows (.selectRole user) page = [role] :: rest ∧ role ≠ "student") ∨
    (m.tables.isStaff user = false ∧
      ((∃ rest, m.rows (.selectRole user) page = ["student"] :: rest) ∨
        m.rows (.selectRole user) page = [])) := by
  unfold Tables.isStaff Memory.tables
  simp only [Memory.rows, ← List.head?_filter]
  cases m.user_table.filter (·.username = user) with
  | nil => exact .inr ⟨rfl, .inr rfl⟩
  | cons account rest =>
    by_cases hrole : account.role = "student"
    · exact .inr ⟨by simp [hrole], .inl ⟨rest.map fun row => [row.role], by simp [hrole]⟩⟩
    · exact .inl ⟨by simp [hrole], account.role, rest.map fun row => [row.role], rfl, hrole⟩

theorem checkRole_runs (user : String) (next : Code Unit) (m : Memory) :
    (checkRole user next).runs (alone lib) m =
      if m.tables.isStaff user then next.runs (alone lib) m else some ((), m) := by
  unfold checkRole
  simp only [effect_eq, Prog.op_bind, Prog.ret_bind]
  rw [runs_alone (by simp), Memory.response_query, Memory.after_query, Memory.apply_selectRole]
  obtain ⟨hstaff, role, rest, hrows, hrole⟩ | ⟨hstaff, ⟨rest, hrows⟩ | hrows⟩ :=
    rows_selectRole user m (Source.answers (.query (.selectRole user)))
  · rw [hrows, hstaff, if_pos rfl]
    simp only [if_neg hrole]
  · rw [hrows, hstaff]
    simp only [if_true]
    rw [runs_alone (by simp)]
    rfl
  · rw [hrows, hstaff]
    rw [runs_alone (by simp)]
    rfl

/-- The descriptor of an opened file is the one that the bytes go to. -/
theorem files_storeFile (m : Memory) (path : String) (body : Bytes) :
    ((m.openFile path).write m.opened body).files = putFile m.files (some (path, body)) := by
  simp only [Memory.write, Memory.openFile, putFile, Function.update_self, Option.map_some,
    Function.update_idem, overwrite]

theorem storeFile_runs (lib : Library) (path : String) (body : Bytes) (m : Memory) :
    ∃ m', (storeFile path body).runs (alone lib) m = some ((), m') ∧ m'.tables = m.tables ∧
      m'.files = putFile m.files (some (path, body)) := by
  simp only [storeFile, effect_eq, Prog.op_bind, Prog.ret_bind]
  rw [runs_alone (by simp), runs_alone (by simp), runs_alone (by simp)]
  exact ⟨_, rfl, rfl, files_storeFile m path body⟩

theorem dropCases_runs (lib : Library) (problem_id : String) (m : Memory) :
    ∃ m', (dropCases problem_id).runs (alone lib) m = some ((), m') ∧
      m'.tables = m.tables.drop problem_id ∧ m'.files = m.files := by
  simp only [dropCases, effect_eq, Prog.op_bind, Prog.ret_bind]
  rw [runs_alone (by simp), runs_alone (by simp)]
  exact ⟨_, rfl, rfl, rfl⟩

/-- A complete upload does to the memory what `Upload.next` and `Upload.stores` say. -/
def Upload.Does (lib : Library) (upload : Upload) (m : Memory) : Prop :=
  ∃ m', upload.prog.runs (alone lib) m = some ((), m') ∧ m'.tables = upload.next m.tables ∧
    m'.files = putFile m.files (upload.stores m.tables)

theorem add_test_in_runs (user problem_id case_id : String) (body : Bytes) (m : Memory) :
    (Upload.testIn user problem_id case_id body).Does lib m := by
  simp only [Upload.Does, Upload.prog, add_test_in, checkRole_runs, Upload.next, Upload.stores]
  split
  · rw [Prog.runs_bind]
    obtain ⟨m₁, hfile, htables, hfiles⟩ := storeFile_runs lib
      (OJ_Judge.inPath ++ "/" ++ inCaseName problem_id case_id) body m
    simp only [hfile, Option.bind_some, effect_eq, Prog.op_bind, Prog.ret_bind]
    rw [runs_alone (by simp), runs_alone (by simp), ← htables, ← hfiles]
    exact ⟨_, rfl, rfl, rfl⟩
  · exact ⟨m, rfl, rfl, rfl⟩

theorem add_test_out_runs (user problem_id case_id : String) (body : Bytes) (m : Memory) :
    (Upload.testOut user problem_id case_id body).Does lib m := by
  simp only [Upload.Does, Upload.prog, add_test_out, checkRole_runs, Upload.next, Upload.stores]
  by_cases hstaff : m.tables.isStaff user = true
  swap
  · have hrefuse : ¬m.tables.acceptsOut user problem_id case_id = true :=
      fun h => hstaff (Tables.acceptsOut_iff.mp h).1
    rw [if_neg hstaff, if_neg hrefuse, if_neg hrefuse]
    exact ⟨m, rfl, rfl, rfl⟩
  · rw [if_pos hstaff]
    simp only [my_sync_check_token, effect_eq, Prog.op_bind, Prog.ret_bind, Prog.pure_eq]
    rw [runs_alone (by simp), Memory.response_get, Memory.after_get]
    by_cases hmarker : m.redis (inCaseName problem_id case_id) = some "1"
    · have hread : (m.redis (inCaseName problem_id case_id)).getD "" = "1" := by rw [hmarker]; rfl
      have haccept := Tables.acceptsOut_iff.mpr ⟨hstaff, hmarker⟩
      obtain ⟨m₁, hfile, htables, hfiles⟩ := storeFile_runs lib
        (OJ_Judge.ansPath ++ "/" ++ outputCaseName problem_id case_id) body m
      rw [if_pos hread, Prog.runs_bind, hfile]
      simp only [Option.bind_some]
      rw [runs_alone (by simp), runs_alone (by simp), runs_alone (by simp), runs_alone (by simp),
        if_pos haccept, if_pos haccept, ← htables, ← hfiles]
      exact ⟨_, rfl, rfl, rfl⟩
    · have hread : (m.redis (inCaseName problem_id case_id)).getD "" ≠ "1" := by
        cases hvalue : m.redis (inCaseName problem_id case_id) with
        | none => decide
        | some v =>
          rintro rfl
          exact hmarker hvalue
      have hrefuse : ¬m.tables.acceptsOut user problem_id case_id = true :=
        fun h => hmarker (Tables.acceptsOut_iff.mp h).2
      rw [if_neg hread, runs_alone (by simp), runs_alone (by simp), if_neg hrefuse, if_neg hrefuse]
      exact ⟨_, rfl, rfl, rfl⟩

theorem registered_iff (m : Memory) (title : String) (page : List (List String)) :
    (m.rows (.selectExisting title) page).length > 0 ↔ m.tables.Registered title := by
  simp [Memory.rows, Tables.Registered, Memory.tables, List.length_pos_iff, List.filter_eq_nil_iff]

theorem add_problem_runs (user : String) (params : ProblemParams) (body : Bytes) (m : Memory) :
    (Upload.problem user params body).Does lib m := by
  simp only [Upload.Does, Upload.prog, add_problem, checkRole_runs, Upload.next, Upload.stores]
  by_cases hstaff : m.tables.isStaff user = true
  swap
  · have hrefuse : ¬m.tables.acceptsProblem user params = true :=
      fun h => hstaff (Tables.acceptsProblem_iff.mp h).1
    rw [if_neg hstaff, if_neg hrefuse, if_neg hstaff, if_neg hrefuse]
    exact ⟨m, rfl, rfl, rfl⟩
  · rw [if_pos hstaff, if_pos hstaff]
    simp only [my_sync_check_token, effect_eq, Prog.op_bind, Prog.ret_bind, Prog.pure_eq]
    rw [runs_alone (by simp), Memory.response_query, Memory.after_query,
      Memory.apply_selectExisting]
    by_cases hregistered : m.tables.Registered params.problem_id
    · have hrefuse : ¬m.tables.acceptsProblem user params = true :=
        fun h => (Tables.acceptsProblem_iff.mp h).2.1 hregistered
      rw [if_pos ((registered_iff m _ _).mpr hregistered), runs_alone (by simp), if_neg hrefuse,
        if_neg hrefuse]
      exact dropCases_runs lib params.problem_id m
    · rw [if_neg fun h => hregistered ((registered_iff m _ _).mp h), runs_alone (by simp),
        Memory.response_get, Memory.after_get]
      by_cases hcount : (m.redis (counterKey params.problem_id)).getD "" = params.test_num
      · have haccept := Tables.acceptsProblem_iff.mpr ⟨hstaff, hregistered, hcount⟩
        obtain ⟨m₁, hfile, htables, hfiles⟩ := storeFile_runs lib
          (problems_path ++ "/" ++ params.problem_id) body m
        rw [if_neg (not_not.mpr hcount), Prog.runs_bind, hfile]
        simp only [Option.bind_some]
        rw [runs_alone (by simp), runs_alone (by simp), runs_alone (by simp), if_pos haccept,
          if_pos haccept, ← htables, ← hfiles]
        exact ⟨_, rfl, rfl, rfl⟩
      · have hrefuse : ¬m.tables.acceptsProblem user params = true :=
          fun h => hcount (Tables.acceptsProblem_iff.mp h).2.2
        rw [if_pos hcount, runs_alone (by simp), runs_alone (by simp), if_neg hrefuse,
          if_neg hrefuse]
        exact dropCases_runs lib params.problem_id m

theorem Upload.runs_next (lib : Library) (upload : Upload) (m : Memory) : upload.Does lib m := by
  cases upload with
  | testIn user problem_id case_id body => exact add_test_in_runs user problem_id case_id body m
  | testOut user problem_id case_id body => exact add_test_out_runs user problem_id case_id body m
  | problem user params body => exact add_problem_runs user params body m

theorem Upload.runs_tables (lib : Library) (upload : Upload) (m : Memory) :
    ∃ m', upload.prog.runs (alone lib) m = some ((), m') ∧ m'.tables = upload.next m.tables := by
  obtain ⟨m', hruns, htables, -⟩ := upload.runs_next lib m
  exact ⟨m', hruns, htables⟩

/-! ### The answer of `add_problem` -/

/-- Only a staff user gets past the role check. -/
theorem mem_checkRole_events {user : String} {next : Code Unit} {m : Memory} {e : Event effects}
    (he : e ∈ (checkRole user next).events (alone lib) m) :
    e.op = .query (.selectRole user) ∨ e.op = .set_status_code "403" ∨ e.op = .out_of_range ∨
      m.tables.isStaff user = true ∧ e ∈ next.events (alone lib) m := by
  unfold checkRole at he
  simp only [effect_eq, Prog.op_bind, Prog.ret_bind] at he
  rw [events_alone (by simp), Memory.response_query, Memory.after_query,
    Memory.apply_selectRole] at he
  obtain rfl | he := List.mem_cons.mp he
  · exact .inl rfl
  obtain ⟨hstaff, role, rest, hrows, hrole⟩ | ⟨-, ⟨rest, hrows⟩ | hrows⟩ :=
    rows_selectRole user m (Source.answers (.query (.selectRole user)))
  · rw [hrows] at he
    simp only [if_neg hrole] at he
    exact .inr (.inr (.inr ⟨hstaff, he⟩))
  · rw [hrows] at he
    simp only [if_true] at he
    rw [events_alone (by simp)] at he
    obtain rfl := List.mem_singleton.mp he
    exact .inr (.inl rfl)
  · rw [hrows] at he
    rw [events_alone (by simp)] at he
    obtain rfl := List.mem_singleton.mp he
    exact .inr (.inr (.inl rfl))

theorem dropCases_status (problem_id code : String) (m : Memory) :
    ∀ e ∈ (dropCases problem_id).events (alone lib) m, e.op ≠ .set_status_code code := by
  have honly : (dropCases problem_id).Only fun o : Op => o ≠ .set_status_code code := by
    simp [dropCases]
  exact honly.events

/-- `add_problem` answers 200 only when it registers the problem. -/
theorem acceptsProblem_of_answer {user : String} {params : ProblemParams} {body : Bytes}
    {m : Memory} {e : Event effects}
    (he : e ∈ (Upload.problem user params body).prog.events (alone lib) m)
    (hcode : e.op = .set_status_code "200") : m.tables.acceptsProblem user params = true := by
  obtain h | h | h | ⟨hstaff, he⟩ := mem_checkRole_events he
  · rw [h] at hcode
    cases hcode
  · rw [h] at hcode
    exact absurd hcode (by simp)
  · rw [h] at hcode
    cases hcode
  simp only [my_sync_check_token, effect_eq, Prog.op_bind, Prog.ret_bind, Prog.pure_eq] at he
  rw [events_alone (by simp), Memory.response_query, Memory.after_query,
    Memory.apply_selectExisting] at he
  obtain rfl | he := List.mem_cons.mp he
  · cases hcode
  by_cases hregistered : m.tables.Registered params.problem_id
  · rw [if_pos ((registered_iff m _ _).mpr hregistered), events_alone (by simp)] at he
    obtain rfl | he := List.mem_cons.mp he
    · exact absurd hcode (by simp)
    · exact absurd hcode (dropCases_status _ _ _ e he)
  · rw [if_neg fun h => hregistered ((registered_iff m _ _).mp h), events_alone (by simp),
      Memory.response_get, Memory.after_get] at he
    obtain rfl | he := List.mem_cons.mp he
    · cases hcode
    by_cases hcount : (m.redis (counterKey params.problem_id)).getD "" = params.test_num
    · exact Tables.acceptsProblem_iff.mpr ⟨hstaff, hregistered, hcount⟩
    · rw [if_pos hcount, events_alone (by simp), events_alone (by simp)] at he
      obtain rfl | he := List.mem_cons.mp he
      · exact absurd hcode (by simp)
      obtain rfl | he := List.mem_cons.mp he
      · cases hcode
      · exact absurd hcode (dropCases_status _ _ _ e he)

end Runs

end OJJudge.Storage
