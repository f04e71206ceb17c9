import OJJudge.Sql.Lexer
import OJJudge.Staff
import OJJudge.UserInfo

/-! The statements of the handlers under the lexical rules of the database.  The handlers put every
value between double quotes and escape nothing. -/

namespace OJJudge

open Concurrency

/-- The text of a statement up to its first literal, and the value of each literal with the text
that follows it. -/
def Stmt.parts : Stmt → String × List (String × String)
  | .selectProblemId title =>
    ("SELECT problem_id FROM  problems_cpp WHERE title = ", [(title, ";")])
  | .selectExisting title => ("SELECT problem_id FROM problems_cpp WHERE title = ", [(title, ";")])
  | .selectTestCases problem_id =>
    ("SELECT input_file_path, output_file_path FROM test_cases WHERE problem_id = ",
      [(problem_id, ";")])
  | .selectTestNum title => ("SELECT test_num FROM problems_cpp WHERE title = ", [(title, ";")])
  | .insertSubmission user_id problem_id result =>
    ("INSERT INTO submissions (user_id, problem_id, language, result) VALUES(",
      [(user_id, ", "), (problem_id, ", "), ("cpp", ", "), (result, ");")])
  | .selectRole username => ("SELECT role FROM user_table WHERE username = ", [(username, ";")])
  | .deleteTestCases problem_id =>
    ("DELETE FROM test_cases WHERE problem_id = ", [(problem_id, ";")])
  | .insertProblem title difficulty time_limit memory_limit author_id is_public test_num =>
    ("INSERT INTO problems_cpp (title, difficulty, time_limit, memory_limit, author_id, " ++
      "is_public, test_num) VALUES (",
      [(title, ", "), (difficulty, ", "), (time_limit, ", "), (memory_limit, ", "),
        (author_id, ", "), (is_public, ", "), (test_num, ");")])
  | .insertTestCase problem_id input_file_path output_file_path =>
    ("INSERT INTO test_cases (problem_id, input_file_path, output_file_path) VALUES (",
      [(problem_id, ", "), (input_file_path, ", "), (output_file_path, ");")])
  | .selectProblems beginID =>
    ("SELECT title, difficulty, author_id  FROM problems_cpp WHERE problem_id >= " ++ beginID ++
      " AND is_public = 1 LIMIT 10;", [])
  | .insertUser username password_hash role =>
    ("INSERT INTO user_table (username, password_hash, role, email) VALUES (",
      [(username, ", "), (password_hash, ", "), (role, ", "), ("000", ");")])
  | .selectLogin username password_hash =>
    ("SELECT role, username FROM user_table WHERE username = ",
      [(username, " AND password_hash = "), (password_hash, ";")])

/-- The literals of a statement, as lists of characters. -/
def Stmt.pieces (stmt : Stmt) : List (List Char × List Char) :=
  stmt.parts.2.map fun piece => (piece.1.toList, piece.2.toList)

/-- The values that a handler inserts. -/
def Stmt.inserted : Stmt → List String
  | .selectProblemId title | .selectExisting title | .selectTestNum title => [title]
  | .selectTestCases problem_id | .deleteTestCases problem_id => [problem_id]
  | .insertSubmission user_id problem_id result => [user_id, problem_id, result]
  | .selectRole username => [username]
  | .insertProblem title difficulty time_limit memory_limit author_id is_public test_num =>
    [title, difficulty, time_limit, memory_limit, author_id, is_public, test_num]
  | .insertTestCase problem_id input_file_path output_file_path =>
    [problem_id, input_file_path, output_file_path]
  | .selectProblems beginID => [beginID]
  | .insertUser username password_hash role => [username, password_hash, role]
  | .selectLogin username password_hash => [username, password_hash]

/-- The tokens of the statement's template, with each value as one literal. -/
def Stmt.template (stmt : Stmt) : List Sql.Token :=
  Sql.gapTokens stmt.parts.1.toList ++ Sql.literalTokens stmt.pieces

/-- Every inserted value stands in a literal. -/
def Stmt.quoted : Stmt → Bool
  | .selectProblems _ => false
  | _ => true

/-- The statement lexes into its template. -/
def Stmt.KeepsTemplate (stmt : Stmt) : Prop := Sql.tokens stmt.sql.toList = some stmt.template

/-- A value that stands for itself in a literal. -/
def IsPlain (value : String) : Prop := Sql.Plain '"' value.toList = true

theorem Stmt.sql_eq_parts (stmt : Stmt) :
    stmt.sql.toList = stmt.parts.1.toList ++ Sql.literals stmt.pieces := by
  unfold Stmt.pieces Stmt.sql Stmt.parts
  cases stmt <;>
    simp only [List.map_cons, List.map_nil, Sql.literals, String.toList_append,
      -String.reduceToList, -String.reduceAppend]
  all_goals
    repeat rw [String.toList_ofList]
    simp only [List.cons_append, List.nil_append, List.append_assoc, List.append_nil]

theorem isGapText_iff_all (p : List Char) :
    Sql.IsGapText p ↔ (!p.isEmpty && p.all Sql.isGap) = true := by
  simp [Sql.IsGapText]

theorem Stmt.isGapText_parts (stmt : Stmt) (h : stmt.quoted = true) :
    Sql.IsGapText stmt.parts.1.toList ∧ ∀ piece ∈ stmt.pieces, Sql.IsGapText piece.2 := by
  unfold Stmt.pieces Stmt.parts
  cases stmt with
  | selectProblems beginID => cases h
  | _ =>
    simp only [List.map_cons, List.map_nil, List.forall_mem_cons, isGapText_iff_all,
      -String.reduceToList, -String.reduceAppend, String.toList_append]
    repeat rw [String.toList_ofList]
    simp only [List.not_mem_nil, false_implies, implies_true, and_true]
    decide +kernel

/-- The literals of a template that no value can change are plain. -/
theorem Stmt.plain_pieces {stmt : Stmt} (h : stmt.quoted = true) :
    (∀ piece ∈ stmt.pieces, Sql.Plain '"' piece.1 = true) ↔ ∀ v ∈ stmt.inserted, IsPlain v := by
  have hcpp : Sql.Plain '"' "cpp".toList = true := by decide
  have hemail : Sql.Plain '"' "000".toList = true := by decide
  unfold Stmt.pieces Stmt.parts Stmt.inserted IsPlain
  cases stmt with
  | selectProblems beginID => cases h
  | _ =>
    simp only [List.map_cons, List.map_nil, List.forall_mem_cons, hcpp, hemail, true_and,
      List.not_mem_nil, false_implies, implies_true]

/-- A quoted statement lexes into its template exactly when every inserted value is plain. -/
theorem Stmt.keepsTemplate_iff {stmt : Stmt} (h : stmt.quoted = true) :
    stmt.KeepsTemplate ↔ ∀ v ∈ stmt.inserted, IsPlain v := by
  obtain ⟨hfirst, hpieces⟩ := stmt.isGapText_parts h
  rw [Stmt.KeepsTemplate, Stmt.template, stmt.sql_eq_parts, Sql.template_iff hfirst hpieces,
    Stmt.plain_pieces h]

/-! ### Handlers -/

/-- The operation is no statement with a value outside a literal. -/
def Quoted (o : Op) : Prop := ∀ stmt, o = .query stmt → stmt.quoted = true

/-- The statement of the operation, if it is one, lexes into its template exactly when every
inserted value is plain. -/
def TemplateIffPlain (o : Op) : Prop :=
  ∀ stmt, o = .query stmt → (stmt.KeepsTemplate ↔ ∀ v ∈ stmt.inserted, IsPlain v)

theorem Quoted.templateIffPlain {o : Op} (h : Quoted o) : TemplateIffPlain o :=
  fun stmt hstmt => Stmt.keepsTemplate_iff (h stmt hstmt)

@[simp] theorem quoted_query (stmt : Stmt) : Quoted (.query stmt) ↔ stmt.quoted = true :=
  ⟨fun h => h stmt rfl, fun h _ hstmt => Op.query.inj hstmt ▸ h⟩

theorem RunnerOp.quoted {conf : IsolateConf} {task : Runner_task} {o : Op}
    (h : RunnerOp conf task o) : Quoted o := by
  intro stmt hstmt
  cases h <;> cases hstmt

theorem SubmissionOp.quoted {conf : IsolateConf} {user_name porblem_title : String} {body : Bytes}
    {o : Op} (h : SubmissionOp conf user_name porblem_title body o) : Quoted o := by
  intro stmt hstmt
  cases h with
  | job task _ _ ho => exact ho.quoted stmt hstmt
  | _ => cases hstmt <;> rfl

theorem StateOp.quoted {user_name porblem_title : String} {o : Op}
    (h : StateOp user_name porblem_title o) : Quoted o := by
  intro stmt hstmt
  cases h <;> cases hstmt <;> rfl

theorem AddProblemOp.quoted {Creater_user_id : String} {params : ProblemParams} {body : Bytes}
    {o : Op} (h : AddProblemOp Creater_user_id params body o) : Quoted o := by
  intro stmt hstmt
  cases h <;> cases hstmt <;> rfl

theorem AddTestOutOp.quoted {conf : IsolateConf} {Creater_user_id problem_id case_id : String}
    {body : Bytes} {o : Op} (h : AddTestOutOp conf Creater_user_id problem_id case_id body o) :
    Quoted o := by
  intro stmt hstmt
  cases h <;> cases hstmt <;> rfl

theorem LoginOp.quoted {lib : Library} {req : HttpReq} {o : Op} (h : UserInfo.LoginOp lib req o) :
    Quoted o := by
  intro stmt hstmt
  cases h with
  | selectLogin username password husername =>
    cases hstmt
    rfl
  | _ => cases hstmt

/-- The programs behind the session check build quoted statements when what follows it does. -/
theorem session_quoted {req : HttpReq} {next : (String → String) → String → Code Unit}
    (h : ∀ KVpairs user_name, (next KVpairs user_name).Only Quoted) :
    (withParams req fun KVpairs => session req (next KVpairs)).Only Quoted :=
  withParams_only fun _ _ =>
    session_only (fun _ _ hstmt => nomatch hstmt) (fun _ hstmt => nomatch hstmt) (h _)

section Login

variable {lib : Library} {req : HttpReq}

/-- The effect of an operation on the buffer of `crypt`, when no other thread calls it. -/
def Buffered (lib : Library) (s : String) : (o : Op) → o.Res → String → Prop
  | .crypt key salt, _, s' => s' = lib.crypt key salt
  | .crypt_buffer, r, s' => r = s ∧ s' = s
  | _, _, s' => s' = s

/-- The operation is no statement, or it looks for the decoded name and the hash of the password. -/
def LooksUpGiven (lib : Library) (req : HttpReq) (o : Op) : Prop :=
  ∀ stmt, o = .query stmt → ∃ username,
    url_decode req.ii ((lib.form_kv req.body).get "username") = some username ∧
    stmt = .selectLogin (text username)
      (lib.crypt (text (cString ((lib.form_kv req.body).get "password"))) passwordSalt)

/-- When the values of the statement are plain, the database finds a row for it only of an account
with the given name and the hash of the given password.  `rows` is what the database answers to the
tokens of a statement. -/
def FindsGiven (lib : Library) (req : HttpReq)
    (rows : List Sql.Token → List Account → List (List String)) (user_table : List Account)
    (o : Op) : Prop :=
  ∀ stmt, o = .query stmt → (∀ v ∈ stmt.inserted, IsPlain v) →
    ∀ ts, Sql.tokens stmt.sql.toList = some ts → rows ts user_table ≠ [] →
      ∃ username, url_decode req.ii ((lib.form_kv req.body).get "username") = some username ∧
        ∃ row ∈ user_table, row.username = text username ∧
          row.password_hash =
            lib.crypt (text (cString ((lib.form_kv req.body).get "password"))) passwordSalt

theorem userLogin_looksUpGiven (s : String) :
    (UserInfo.userLogin lib req).Wp (Buffered lib) (fun _ o => LooksUpGiven lib req o)
      (fun _ _ => True) s := by
  have hother : ∀ {o : Op}, (∀ stmt, o ≠ .query stmt) → LooksUpGiven lib req o :=
    fun ho stmt hstmt => absurd hstmt (ho stmt)
  refine ⟨hother (by simp), fun _ _ _ => ⟨hother (by simp), fun _ _ _ =>
    ⟨hother (by simp), fun _ _ _ => ?_⟩⟩⟩
  simp only [Prog.bind_eq, Prog.ret_bind, Prog.pure_eq]
  split
  · next username _ husername _ =>
    refine ⟨hother (by simp), fun _ s₁ hcrypt => ⟨hother (by simp), ?_⟩⟩
    rintro password s₂ ⟨rfl, -⟩
    refine ⟨fun stmt hstmt => ⟨username, husername, ?_⟩, fun form s₃ _ => ?_⟩
    · cases hstmt
      rw [show password = _ from hcrypt]
    · refine Prog.Only.wp (K := fun o : Op => ∀ stmt, o ≠ .query stmt) (I := fun _ => True)
        (fun _ _ ho _ => hother ho) (fun _ _ _ _ _ _ _ => trivial) ?_ trivial
      exact login_mysqlCallBack_no_query _ _ _
  · trivial

/-- A login whose form decodes runs its look-up, whatever the buffer of `crypt` holds. -/
theorem userLogin_runs_lookup {P : Op → Prop} {username password : Bytes}
    (husername : url_decode req.ii ((lib.form_kv req.body).get "username") = some username)
    (hpassword : url_decode req.ii ((lib.form_kv req.body).get "password") = some password)
    (h : (UserInfo.userLogin lib req).Only P) (hash : String) :
    P (.query (.selectLogin (text username) hash)) := by
  have hlogin := ((h.2 ()).2 ()).2 ()
  simp only [Prog.bind_eq, Prog.ret_bind, husername, hpassword] at hlogin
  exact ((hlogin.2 ()).2 hash).1

end Login

/-- In the statements of `userLogin`, `runCpp`, `runState`, `add_test_out` and `add_problem`, the
inserted values stay literals exactly when they are plain; and a login with plain values gets a row
only of the given account. -/
theorem statements_keep_templates_iff (lib : Library) (conf : IsolateConf)
    (rows : List Sql.Token → List Account → List (List String))
    (hrows : ∀ username password_hash user_table,
      rows (Stmt.selectLogin username password_hash).template user_table =
        (user_table.filter fun row =>
          row.username = username ∧ row.password_hash = password_hash).map fun row =>
            [row.role, row.username]) (req : HttpReq) :
    (UserInfo.userLogin lib req).Only TemplateIffPlain ∧
    (Judge.runCpp conf req).Only TemplateIffPlain ∧
    (Judge.runState req).Only TemplateIffPlain ∧
    (Judge.add_test_out conf req).Only TemplateIffPlain ∧
    (Judge.add_problem req).Only TemplateIffPlain ∧
    ∀ buffer user_table, (UserInfo.userLogin lib req).Wp (Buffered lib)
      (fun _ o => FindsGiven lib req rows user_table o) (fun _ _ => True) buffer := by
  have htemplate : ∀ {p : Code Unit}, p.Only Quoted → p.Only TemplateIffPlain :=
    fun hp => hp.mono fun _ ho => ho.templateIffPlain
  refine ⟨?_, ?_, ?_, ?_, ?_, ?_⟩
  · exact htemplate ((UserInfo.userLogin_only lib req).mono fun _ ho => LoginOp.quoted ho)
  · exact htemplate (session_quoted fun _ _ => (runCpp_only ..).mono fun _ ho => ho.quoted)
  · exact htemplate (session_quoted fun _ _ => (runState_only ..).mono fun _ ho => ho.quoted)
  · exact htemplate (session_quoted fun _ _ => (add_test_out_only ..).mono fun _ ho => ho.quoted)
  · exact htemplate (session_quoted fun _ _ => (add_problem_only ..).mono fun _ ho => ho.quoted)
  · intro buffer user_table
    refine (userLogin_looksUpGiven buffer).mono ?_ fun _ _ h => h
    intro _ o ho stmt hstmt hplain ts hts hne
    obtain ⟨username, husername, rfl⟩ := ho stmt hstmt
    have hkeeps := (Stmt.keepsTemplate_iff rfl).mpr hplain
    obtain rfl := Option.some.inj (hts.symm.trans hkeeps)
    rw [hrows] at hne
    obtain ⟨row, hrow⟩ := List.exists_mem_of_ne_nil _ hne
    obtain ⟨account, haccount, -⟩ := List.mem_map.mp hrow
    obtain ⟨hmem, heq⟩ := List.mem_filter.mp haccount
    obtain ⟨hname, hhash⟩ := of_decide_eq_true heq
    exact ⟨username, husername, account, hmem, hname, hhash⟩

/-- The answer of the database to the template of the login. -/
def loginRows (ts : List Sql.Token) (user_table : List Account) : List (List String) :=
  match Sql.literalValues ts with
  | [username, password_hash] =>
    (user_table.filter fun row =>
      row.username.toList = username ∧ row.password_hash.toList = password_hash).map fun row =>
        [row.role, row.username]
  | _ => []

theorem loginRows_template (username password_hash : String) (user_table : List Account) :
    loginRows (Stmt.selectLogin username password_hash).template user_table =
      (user_table.filter fun row =>
        row.username = username ∧ row.password_hash = password_hash).map fun row =>
          [row.role, row.username] := by
  obtain ⟨hfirst, hpieces⟩ := (Stmt.selectLogin username password_hash).isGapText_parts rfl
  have hvalues : Sql.literalValues (Stmt.selectLogin username password_hash).template =
      [username.toList, password_hash.toList] := Sql.literalValues_template hfirst.2 hpieces
  simp only [loginRows, hvalues, String.toList_inj]

/-- A login with a form. -/
def signIn (form : String) : HttpReq := .sample "/login" "" form

theorem statements_keep_templates_alice :
    (UserInfo.userLogin .sample (signIn "username=alice&password=secret")).Only TemplateIffPlain ∧
    (UserInfo.userLogin .sample (signIn "username=alice&password=secret")).Wp (Buffered .sample)
      (fun _ o => FindsGiven .sample (signIn "username=alice&password=secret") loginRows
        [⟨"alice", "$5$73256$RSe39LE1w6eu3q4uIrArcDxgcmAjyg89mEclDVvVSS6", "student"⟩] o)
      (fun _ _ => True) "" :=
  have h := statements_keep_templates_iff .sample OJ_Judge loginRows loginRows_template
    (signIn "username=alice&password=secret")
  ⟨h.1, h.2.2.2.2.2 "" _⟩

/-- A login whose name holds a quote. -/
def injection : HttpReq := signIn "username=x\" OR 1=1 -- &password=y"

/-- The quote in the name ends its literal, and the rest of the name becomes a condition. -/
theorem login_name_becomes_syntax :
    ¬ (UserInfo.userLogin .sample injection).Only
      (fun o : Op => ∀ stmt, o = .query stmt → stmt.KeepsTemplate) := by
  intro h
  have husername : url_decode injection.ii ((Library.sample.form_kv injection.body).get "username") =
      some (bytes "x\" OR 1=1 -- ") := by decide +kernel
  have hpassword : url_decode injection.ii ((Library.sample.form_kv injection.body).get "password") =
      some (bytes "y") := by decide +kernel
  have hkeeps := userLogin_runs_lookup husername hpassword h "" _ rfl
  have hplain := (Stmt.keepsTemplate_iff rfl).mp hkeeps _ (List.mem_cons_self ..)
  exact absurd hplain (by unfold IsPlain; decide +kernel)

example : Sql.tokens (Stmt.selectLogin "x\" OR 1=1 -- " "h").sql.toList =
    Sql.tokens "SELECT role, username FROM user_table WHERE username = \"x\" OR 1=1".toList := by
  decide +kernel

end OJJudge
