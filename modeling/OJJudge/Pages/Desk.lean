import OJJudge.Pages.Client
import OJJudge.Storage.Counting

/-! What an upload to one problem sees of the storage, and what its operations do there.  Other
clients read that part at most, so an upload finds there what it has left. -/

namespace OJJudge.Pages

open Concurrency Storage

@[simp] theorem inCaseName_inj {p c c' : String} : inCaseName p c = inCaseName p c' ↔ c = c' := by
  simp [inCaseName]

/-! ### The part of the storage -/

/-- The columns of a row of `problems_cpp` that a request decides. -/
def entryOf (problem : Problem) : String × ProblemParams :=
  (problem.author_id,
    ⟨problem.title, problem.difficulty, problem.time_limit, problem.memory_limit,
      problem.is_public, problem.test_num⟩)

/-- The session of the user, the counter, the markers and the rows of the problem, and the status
text of the page. -/
structure Desk where
  session : Option String
  counter : Option String
  marker : String → Option String
  problems : List (String × ProblemParams)
  cases : List TestCase
  text : String

/-- Who uploads which problem, and the key of the session. -/
structure Errand where
  user : String
  problem_id : String
  sessionKey : String
  sessionKey_ne_counterKey : sessionKey ≠ counterKey problem_id
  sessionKey_ne_inCaseName : ∀ case_id, sessionKey ≠ inCaseName problem_id case_id

namespace Errand

variable (errand : Errand)

def desk (m : Storage.Memory) (text : String) : Desk where
  session := m.redis errand.sessionKey
  counter := m.redis (counterKey errand.problem_id)
  marker case_id := m.redis (inCaseName errand.problem_id case_id)
  problems := (m.problems_cpp.filter (·.title = errand.problem_id)).map entryOf
  cases := m.tables.cases errand.problem_id
  text := text

/-- A key of the desk. -/
def IsKey (key : String) : Prop :=
  key = errand.sessionKey ∨ key = counterKey errand.problem_id ∨
    ∃ case_id, key = inCaseName errand.problem_id case_id

/-- An operation on the desk. -/
def Concerns : Op → Prop
  | .get key | .set key _ | .incr key | .del key => errand.IsKey key
  | .query (.selectRole username) => username = errand.user
  | .query (.selectExisting title) => title = errand.problem_id
  | .query (.deleteTestCases problem_id) => problem_id = errand.problem_id
  | .query (.insertProblem title _ _ _ _ _ _) => title = errand.problem_id
  | .query (.insertTestCase problem_id _ _) => problem_id = errand.problem_id
  | _ => False

/-- An operation of another client: on the desk, it reads at most. -/
def Elsewhere : Action → Prop
  | .server (.get _) | .server (.query (.selectRole _)) | .server (.query (.selectExisting _)) =>
    True
  | .server o => ¬errand.Concerns o
  | .setText _ => True

/-- What an operation of the upload on the server gets and leaves. -/
def Serves (s : Desk) : (o : Op) → o.Res → Desk → Prop
  | .get key, r, s' =>
    s' = s ∧ (key = errand.sessionKey → r = s.session) ∧
      (key = counterKey errand.problem_id → r = s.counter) ∧
      ∀ case_id, key = inCaseName errand.problem_id case_id → r = s.marker case_id
  | .set key value, _, s' =>
    ∀ case_id, key = inCaseName errand.problem_id case_id →
      s' = { s with marker := Function.update s.marker case_id (some value) }
  | .incr key, _, s' =>
    key = counterKey errand.problem_id → s' = { s with counter := incrValue s.counter }
  | .del key, _, s' =>
    (key = counterKey errand.problem_id → s' = { s with counter := none }) ∧
      ∀ case_id, key = inCaseName errand.problem_id case_id →
        s' = { s with marker := Function.update s.marker case_id none }
  | .query (.selectRole username), r, s' =>
    s' = s ∧ (username = errand.user → ∃ role rest, r = [role] :: rest ∧ role ≠ "student")
  | .query (.selectExisting title), r, s' =>
    s' = s ∧ (title = errand.problem_id → (r.length > 0 ↔ s.problems ≠ []))
  | .query (.deleteTestCases problem_id), _, s' =>
    problem_id = errand.problem_id → s' = { s with cases := [] }
  | .query (.insertProblem title difficulty time_limit memory_limit author_id is_public test_num),
      _, s' =>
    title = errand.problem_id →
      s' = { s with
        problems := s.problems ++
          [(author_id, ⟨title, difficulty, time_limit, memory_limit, is_public, test_num⟩)] }
  | .query (.insertTestCase problem_id input_file_path output_file_path), _, s' =>
    problem_id = errand.problem_id →
      s' = { s with cases := s.cases ++ [⟨problem_id, input_file_path, output_file_path⟩] }
  | .query _, _, _ => True
  | _, _, s' => s' = s

/-- What an operation of the upload gets and leaves. -/
def Acts (s : Desk) : (o : Action) → o.Res → Desk → Prop
  | .server o, r, s' => errand.Serves s o r s'
  | .setText text, _, s' => s' = { s with text := text }

/-! ### The steps of the upload -/

variable {errand} {lib : Library} {mayFail : Op → Bool} {t : Nat} {x : Choice} {m m' : Storage.Memory}
  {text : String}

/-- A key that is not on the desk can have any value. -/
theorem desk_setRedis_of_not {key : String} (h : ¬errand.IsKey key) (value : Option String) :
    errand.desk (m.setRedis key value) text = errand.desk m text := by
  simp only [IsKey, not_or, not_exists] at h
  obtain ⟨hsession, hcounter, hmarker⟩ := h
  have hmarkers : ∀ case_id, (m.setRedis key value).redis (inCaseName errand.problem_id case_id) =
      m.redis (inCaseName errand.problem_id case_id) := fun case_id =>
    Function.update_of_ne (Ne.symm (hmarker case_id)) _ _
  have hkeys : (m.setRedis key value).redis errand.sessionKey = m.redis errand.sessionKey ∧
      (m.setRedis key value).redis (counterKey errand.problem_id) =
        m.redis (counterKey errand.problem_id) :=
    ⟨Function.update_of_ne (Ne.symm hsession) _ _, Function.update_of_ne (Ne.symm hcounter) _ _⟩
  simp only [desk, hmarkers, hkeys.1, hkeys.2]
  rfl

theorem desk_setRedis_counter (value : Option String) :
    errand.desk (m.setRedis (counterKey errand.problem_id) value) text =
      { errand.desk m text with counter := value } := by
  have hmarkers : ∀ case_id, (m.setRedis (counterKey errand.problem_id) value).redis
      (inCaseName errand.problem_id case_id) = m.redis (inCaseName errand.problem_id case_id) :=
    fun case_id => Function.update_of_ne (Ne.symm (counterKey_ne_inCaseName _ _ _)) _ _
  have hsession : (m.setRedis (counterKey errand.problem_id) value).redis errand.sessionKey =
      m.redis errand.sessionKey := Function.update_of_ne errand.sessionKey_ne_counterKey _ _
  have hcounter : (m.setRedis (counterKey errand.problem_id) value).redis
      (counterKey errand.problem_id) = value := Function.update_self ..
  simp only [desk, hmarkers, hsession, hcounter]
  rfl

theorem desk_setRedis_marker (case_id : String) (value : Option String) :
    errand.desk (m.setRedis (inCaseName errand.problem_id case_id) value) text =
      { errand.desk m text with
        marker := Function.update (errand.desk m text).marker case_id value } := by
  have hmarkers : ∀ c, (m.setRedis (inCaseName errand.problem_id case_id) value).redis
      (inCaseName errand.problem_id c) =
        Function.update (errand.desk m text).marker case_id value c := by
    intro c
    by_cases hc : c = case_id
    · subst hc
      simp [Memory.setRedis]
    · simp [Memory.setRedis, hc, desk]
  have hsession : (m.setRedis (inCaseName errand.problem_id case_id) value).redis
      errand.sessionKey = m.redis errand.sessionKey :=
    Function.update_of_ne (errand.sessionKey_ne_inCaseName case_id) _ _
  have hcounter : (m.setRedis (inCaseName errand.problem_id case_id) value).redis
      (counterKey errand.problem_id) = m.redis (counterKey errand.problem_id) :=
    Function.update_of_ne (counterKey_ne_inCaseName _ _ _) _ _
  simp only [desk, hmarkers, hsession, hcounter]
  rfl

theorem desk_deleteTestCases :
    errand.desk (m.apply (.deleteTestCases errand.problem_id)) text =
      { errand.desk m text with cases := [] } := by
  have hcases := Tables.cases_drop (s := m.tables) (p := errand.problem_id) (q := errand.problem_id)
  rw [if_pos rfl] at hcases
  exact congrArg (fun cases => { errand.desk m text with cases := cases }) hcases

theorem desk_insertTestCase (problem_id input_file_path output_file_path : String)
    (h : problem_id = errand.problem_id) :
    errand.desk (m.apply (.insertTestCase problem_id input_file_path output_file_path)) text =
      { errand.desk m text with
        cases := (errand.desk m text).cases ++
          [⟨problem_id, input_file_path, output_file_path⟩] } := by
  subst h
  simp [desk, Memory.apply, Memory.tables, Tables.cases]

theorem desk_insertProblem {title difficulty time_limit memory_limit author_id is_public
    test_num : String} (h : title = errand.problem_id) :
    errand.desk (m.apply (.insertProblem title difficulty time_limit memory_limit author_id
        is_public test_num)) text =
      { errand.desk m text with
        problems := (errand.desk m text).problems ++
          [(author_id, ⟨title, difficulty, time_limit, memory_limit, is_public, test_num⟩)] } := by
  subst h
  simp [desk, Memory.apply, Memory.tables, Tables.cases, entryOf]

/-- The first row of the look-up of a staff user's role. -/
theorem rows_staff (hstaff : m.tables.isStaff errand.user = true) (page : List (List String)) :
    ∃ role rest, m.rows (.selectRole errand.user) page = [role] :: rest ∧ role ≠ "student" := by
  obtain ⟨-, h⟩ | ⟨hnot, -⟩ := rows_selectRole errand.user m page
  · exact h
  · rw [hstaff] at hnot
    cases hnot

theorem rows_problem (page : List (List String)) :
    (m.rows (.selectExisting errand.problem_id) page).length > 0 ↔
      (errand.desk m text).problems ≠ [] := by
  simp [Memory.rows, desk, List.length_pos_iff]

/-- The step lemma for an operation of the upload that succeeds. -/
theorem serves_after (hstaff : m.tables.isStaff errand.user = true)
    (files : String → Option Bytes) (answers : (o : Op) → o.Res) (o : Op) :
    errand.Serves (errand.desk m text) o (m.response answers o)
      (errand.desk (m.after lib t files o) text) := by
  cases o with
  | get key =>
    refine ⟨rfl, ?_, ?_, ?_⟩
    · rintro rfl
      rfl
    · rintro rfl
      rfl
    · rintro case_id rfl
      rfl
  | set key value =>
    rintro case_id rfl
    exact desk_setRedis_marker case_id (some value)
  | incr key =>
    rintro rfl
    exact desk_setRedis_counter _
  | del key =>
    refine ⟨?_, ?_⟩
    · rintro rfl
      exact desk_setRedis_counter none
    · rintro case_id rfl
      exact desk_setRedis_marker case_id none
  | query stmt =>
    cases stmt with
    | selectRole username =>
      refine ⟨rfl, ?_⟩
      rintro rfl
      exact rows_staff hstaff (answers (.query (.selectRole errand.user)))
    | selectExisting title =>
      refine ⟨rfl, ?_⟩
      rintro rfl
      exact rows_problem (answers (.query (.selectExisting errand.problem_id)))
    | deleteTestCases problem_id =>
      rintro rfl
      exact desk_deleteTestCases
    | insertProblem title difficulty time_limit memory_limit author_id is_public test_num =>
      exact desk_insertProblem
    | insertTestCase problem_id input_file_path output_file_path =>
      exact desk_insertTestCase _ _ _
    | _ => trivial
  | _ => rfl

/-- An operation that can fail is not on the desk. -/
theorem serves_of_not_concerns {s : Desk} {o : Op} {r : o.Res} (h : ¬errand.Concerns o) :
    errand.Serves s o r s := by
  cases o with
  | get key =>
    simp only [Concerns, IsKey, not_or, not_exists] at h
    exact ⟨rfl, fun hkey => absurd hkey h.1, fun hkey => absurd hkey h.2.1,
      fun case_id hkey => absurd hkey (h.2.2 case_id)⟩
  | set key value => exact fun case_id hkey => absurd (.inr (.inr ⟨case_id, hkey⟩)) h
  | incr key => exact fun hkey => absurd (.inr (.inl hkey)) h
  | del key =>
    exact ⟨fun hkey => absurd (.inr (.inl hkey)) h,
      fun case_id hkey => absurd (.inr (.inr ⟨case_id, hkey⟩)) h⟩
  | query stmt =>
    cases stmt with
    | selectRole username => exact ⟨rfl, fun hname => absurd hname h⟩
    | selectExisting title => exact ⟨rfl, fun htitle => absurd htitle h⟩
    | deleteTestCases problem_id => exact fun hid => absurd hid h
    | insertProblem => exact fun htitle => absurd htitle h
    | insertTestCase => exact fun hid => absurd hid h
    | _ => trivial
  | _ => rfl

/-! ### Steps of all clients -/

/-- No operation removes an account. -/
theorem isStaff_after {user : String} (hstaff : m.tables.isStaff user = true)
    (files : String → Option Bytes) (o : Op) :
    (m.after lib t files o).tables.isStaff user = true := by
  cases o with
  | query stmt =>
    cases stmt with
    | insertUser username password_hash role =>
      show Tables.isStaff ⟨_, m.user_table ++ [⟨username, password_hash, role⟩], _, _⟩ user = true
      unfold Tables.isStaff Memory.tables at hstaff
      unfold Tables.isStaff
      rw [List.find?_append]
      split at hstaff
      · next account hfind => simp [hfind, hstaff]
      · cases hstaff
    | _ => exact hstaff
  | _ => exact hstaff

theorem isStaff_of_exec {user : String} {o : Action} {r : o.Res} {m m' : Memory}
    (h : exec lib mayFail t o x m = some (r, m')) (hstaff : m.store.tables.isStaff user = true) :
    m'.store.tables.isStaff user = true := by
  cases o with
  | server o =>
    obtain ⟨⟨r, store⟩, hexec, heq⟩ := Option.map_eq_some_iff.mp h
    cases heq
    obtain rfl | rfl := mem_of_exec hexec
    · exact hstaff
    · exact isStaff_after hstaff x.files o
  | setText text =>
    cases h
    exact hstaff

/-- The step lemma for the upload. -/
theorem acts_of_exec {o : Action} {r : o.Res} {m m' : Memory}
    (hworks : ∀ o, errand.Concerns o → mayFail o = false)
    (hstaff : m.store.tables.isStaff errand.user = true)
    (h : exec lib mayFail t o x m = some (r, m')) :
    errand.Acts (errand.desk m.store (m.text t)) o r (errand.desk m'.store (m'.text t)) := by
  cases o with
  | server o =>
    obtain ⟨⟨r, store⟩, hexec, heq⟩ := Option.map_eq_some_iff.mp h
    cases heq
    obtain ⟨hfail, -, rfl⟩ | ⟨rfl, rfl⟩ := exec_cases hexec
    · refine serves_of_not_concerns fun hconcerns => ?_
      rw [hworks o hconcerns] at hfail
      cases hfail
    · exact serves_after hstaff x.files x.answer o
  | setText text =>
    cases h
    simp [Acts, desk]

theorem desk_after_elsewhere {o : Op} (ho : errand.Elsewhere (.server o))
    (files : String → Option Bytes) :
    errand.desk (m.after lib t files o) text = errand.desk m text := by
  cases o with
  | set key value => exact desk_setRedis_of_not ho _
  | incr key => exact desk_setRedis_of_not ho _
  | del key => exact desk_setRedis_of_not ho _
  | query stmt =>
    cases stmt with
    | deleteTestCases problem_id =>
      have hcases := Tables.cases_drop (s := m.tables) (p := errand.problem_id) (q := problem_id)
      rw [if_neg (Ne.symm ho)] at hcases
      exact congrArg (fun cases => { errand.desk m text with cases := cases }) hcases
    | insertProblem title =>
      have hne : title ≠ errand.problem_id := ho
      simp [desk, Memory.apply, Memory.tables, Tables.cases, hne]
    | insertTestCase problem_id =>
      have hne : problem_id ≠ errand.problem_id := ho
      simp [desk, Memory.apply, Memory.tables, Tables.cases, hne]
    | _ => rfl
  | _ => rfl

/-- The step lemma for the other clients. -/
theorem desk_of_exec {u : Nat} {o : Action} {r : o.Res} {m m' : Memory} (hu : u ≠ t)
    (ho : errand.Elsewhere o) (h : exec lib mayFail u o x m = some (r, m')) :
    errand.desk m'.store (m'.text t) = errand.desk m.store (m.text t) := by
  cases o with
  | server o =>
    obtain ⟨⟨r, store⟩, hexec, heq⟩ := Option.map_eq_some_iff.mp h
    cases heq
    obtain rfl | rfl := mem_of_exec hexec
    · rfl
    · exact desk_after_elsewhere ho x.files
  | setText text =>
    cases h
    simp [desk, Function.update_of_ne (Ne.symm hu)]

end Errand

end OJJudge.Pages
