import OJJudge.Storage.Counting

/-! A problem that is added once more.  `add_problem` answers 409 and then deletes the tests of the
title, as it does for an upload that lacks some of its tests. -/

namespace OJJudge.Storage

open Concurrency

/-- The rows and the files of a problem are what they were. -/
structure Intact (problem_id : String) (m m' : Memory) : Prop where
  problems_cpp : m'.problems_cpp.filter (·.title = problem_id) =
    m.problems_cpp.filter (·.title = problem_id)
  test_cases : m'.test_cases.filter (·.problem_id = problem_id) =
    m.test_cases.filter (·.problem_id = problem_id)
  statement : m'.files (problems_path ++ "/" ++ problem_id) =
    m.files (problems_path ++ "/" ++ problem_id)
  inputs : ∀ case_id, m'.files (OJ_Judge.inPath ++ "/" ++ inCaseName problem_id case_id) =
    m.files (OJ_Judge.inPath ++ "/" ++ inCaseName problem_id case_id)
  answers : ∀ case_id, m'.files (OJ_Judge.ansPath ++ "/" ++ outputCaseName problem_id case_id) =
    m.files (OJ_Judge.ansPath ++ "/" ++ outputCaseName problem_id case_id)

/-- The memory after a refusal: no rows of the title and no counter. -/
def Memory.refused (m : Memory) (problem_id : String) : Memory :=
  (m.apply (.deleteTestCases problem_id)).setRedis (counterKey problem_id) none

section Refusal

variable {lib : Library} {user : String} {params : ProblemParams} {body : Bytes} {m : Memory}

/-- A staff user reaches the branch for a title that is taken. -/
theorem add_problem_refused (hstaff : m.tables.isStaff user = true)
    (hregistered : m.tables.Registered params.problem_id) :
    (add_problem user params body).runs (alone lib) m =
      some ((), m.refused params.problem_id) := by
  unfold add_problem
  rw [checkRole_runs, if_pos hstaff]
  simp only [effect_eq, Prog.op_bind, Prog.ret_bind]
  rw [runs_alone (by simp), Memory.response_query, Memory.after_query,
    Memory.apply_selectExisting, if_pos ((registered_iff m _ _).mpr hregistered),
    runs_alone (by simp)]
  simp only [dropCases, effect_eq, Prog.op_bind, Prog.ret_bind]
  rw [runs_alone (by simp), runs_alone (by simp)]
  rfl

/-- The rows of the title are the only thing that a refusal can take away. -/
theorem intact_refused_iff (problem_id : String) :
    Intact problem_id m (m.refused problem_id) ↔ m.tables.cases problem_id = [] := by
  have hnone : (m.refused problem_id).test_cases.filter (·.problem_id = problem_id) = [] := by
    show (m.test_cases.filter (·.problem_id ≠ problem_id)).filter (·.problem_id = problem_id) = []
    simp
  constructor
  · intro h
    exact h.test_cases.symm.trans hnone
  · intro h
    exact ⟨rfl, hnone.trans h.symm, rfl, fun _ => rfl, fun _ => rfl⟩

/-- The answer to a title that is taken. -/
theorem add_problem_answers (hstaff : m.tables.isStaff user = true)
    (hregistered : m.tables.Registered params.problem_id) :
    ⟨.set_status_code "409", ()⟩ ∈ (add_problem user params body).events (alone lib) m := by
  unfold add_problem checkRole
  simp only [effect_eq, Prog.op_bind, Prog.ret_bind]
  rw [events_alone (by simp), Memory.response_query, Memory.after_query, Memory.apply_selectRole]
  obtain ⟨-, role, rest, hrows, hrole⟩ | ⟨hstudent, -⟩ :=
    rows_selectRole user m (Source.answers (.query (.selectRole user)))
  swap
  · exact absurd (hstaff.symm.trans hstudent) (by decide)
  · rw [hrows]
    simp only [if_neg hrole]
    rw [events_alone (by simp), Memory.response_query, Memory.after_query,
      Memory.apply_selectExisting, if_pos ((registered_iff m _ _).mpr hregistered),
      events_alone (by simp)]
    simp

/-- A refused duplicate leaves the problem as it was when the problem has no tests, and only then. -/
theorem refusal_keeps_problem_iff (lib : Library) {user : String} (params : ProblemParams)
    (body : Bytes) {m : Memory} (hstaff : m.tables.isStaff user = true)
    (hregistered : m.tables.Registered params.problem_id) :
    ∃ m', (Upload.problem user params body).prog.runs (alone lib) m = some ((), m') ∧
      (∃ e ∈ (Upload.problem user params body).prog.events (alone lib) m,
        e.op = .set_status_code "409") ∧
      (Intact params.problem_id m m' ↔
        m.test_cases.filter (·.problem_id = params.problem_id) = []) :=
  ⟨m.refused params.problem_id, add_problem_refused hstaff hregistered,
    ⟨_, add_problem_answers hstaff hregistered, rfl⟩, intact_refused_iff params.problem_id⟩

theorem registered_of_titles {title : String} (h : m.problems_cpp.map (·.title) = [title]) :
    m.tables.Registered title := by
  obtain ⟨row, hrow, htitle⟩ := List.mem_map.mp (h ▸ List.mem_singleton_self title)
  exact ⟨row, hrow, htitle⟩

end Refusal

theorem refusal_keeps_problem_p1 : ∃ m m',
    Served .sample (fun _ _ => True) (.account "T" "teacher") m ∧
      m.problems_cpp.map (·.title) = ["p1"] ∧ Intact "p1" m m' := by
  obtain ⟨m, hserved, hm⟩ := exists_served .sample (fun _ _ => True) (.account "T" "teacher")
    [.problem "T" (sampleParams "") []]
    (fun m => (m.tables.isStaff "T", m.problems_cpp.map (·.title), m.test_cases))
    (true, ["p1"], []) (by decide +kernel)
  simp only [Prod.mk.injEq] at hm
  obtain ⟨hstaff, htitles, hcases⟩ := hm
  have hregistered : m.tables.Registered (sampleParams "").problem_id :=
    registered_of_titles htitles
  obtain ⟨m', -, -, hiff⟩ := refusal_keeps_problem_iff .sample (sampleParams "") [] hstaff
    hregistered
  exact ⟨m, m', hserved, htitles, hiff.mpr (by rw [hcases]; rfl)⟩

/-- A staff user adds a registered problem once more, and its test is gone. -/
theorem refusal_deletes_test : ∃ m m', Served .sample (fun _ _ => True) (.account "T" "teacher") m ∧
    m.problems_cpp.map (·.title) = ["p1"] ∧ m.tables.isStaff "T" = true ∧
    (Upload.problem "T" (sampleParams "1") []).prog.runs (alone .sample) m = some ((), m') ∧
    ¬Intact "p1" m m' := by
  obtain ⟨m, hserved, hm⟩ := exists_served .sample (fun _ _ => True) (.account "T" "teacher")
    [.testIn "T" "p1" "1" [], .testOut "T" "p1" "1" [], .problem "T" (sampleParams "1") []]
    (fun m => (m.tables.isStaff "T", m.problems_cpp.map (·.title), m.test_cases))
    (true, ["p1"], [⟨"p1", "p1_input_1.txt", "p1_output_1.txt"⟩]) (by decide +kernel)
  simp only [Prod.mk.injEq] at hm
  obtain ⟨hstaff, htitles, hcases⟩ := hm
  have hregistered : m.tables.Registered (sampleParams "1").problem_id :=
    registered_of_titles htitles
  refine ⟨m, m.refused "p1", hserved, htitles, hstaff, add_problem_refused hstaff hregistered, ?_⟩
  intro hintact
  have hnone := (intact_refused_iff "p1").mp hintact
  rw [Tables.cases, Memory.tables, hcases] at hnone
  cases hnone

end OJJudge.Storage
