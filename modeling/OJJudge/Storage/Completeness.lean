import OJJudge.Storage.Counting

/-! The check of `add_problem` that all tests of a problem are there.  It compares a parameter with a
counter that another handler keeps, so it says as much about the rows as the counter does: a test
uploaded once more counts twice, and a missing parameter equals a missing counter. -/

namespace OJJudge.Storage

open Concurrency

/-- The tests of a problem that is not registered have different input files. -/
def Distinct (s : Tables) : Prop :=
  ∀ p, ¬s.Registered p → ((s.cases p).map (·.input_file_path)).Nodup

/-- No answer file is accepted for a test that a problem to be registered has already, and no staff
user adds a problem without `test_num` while no test of it is counted. -/
def CountsCases (s : Tables) : Upload → Prop
  | .testIn _ _ _ _ => True
  | .testOut user problem_id case_id _ => s.acceptsOut user problem_id case_id = true →
    s.Registered problem_id ∨
      ∀ row ∈ s.cases problem_id, row.input_file_path ≠ inCaseName problem_id case_id
  | .problem user params _ => s.isStaff user = true → s.Registered params.problem_id ∨
    (s.redis (counterKey params.problem_id) = none → params.test_num ≠ "")

instance (s : Tables) : (upload : Upload) → Decidable (CountsCases s upload)
  | .testIn _ _ _ _ => inferInstanceAs (Decidable True)
  | .testOut _ _ _ _ => inferInstanceAs (Decidable (_ → _ ∨ ∀ row ∈ _, _))
  | .problem _ _ _ => inferInstanceAs (Decidable (_ → _ ∨ (_ → _)))

theorem Distinct.addCase {s : Tables} (h : Distinct s) {q case_id : String}
    (hq : s.Registered q ∨ ∀ row ∈ s.cases q, row.input_file_path ≠ inCaseName q case_id) :
    Distinct (s.addCase q case_id) := by
  intro p hp
  have hp' : ¬s.Registered p := hp
  rw [Tables.cases_addCase]
  by_cases hpq : p = q
  · subst hpq
    obtain hq | hq := hq
    · exact absurd hq hp'
    · rw [if_pos rfl, List.map_append]
      apply List.Nodup.append (h p hp') (List.nodup_singleton _)
      rw [List.disjoint_singleton]
      intro hmem
      obtain ⟨row, hrow, heq⟩ := List.mem_map.mp hmem
      exact hq row hrow heq
  · rw [if_neg hpq]
    exact h p hp'

theorem Distinct.drop {s : Tables} (h : Distinct s) (q : String) : Distinct (s.drop q) := by
  intro p hp
  rw [Tables.cases_drop]
  split
  · exact List.nodup_nil
  · exact h p hp

theorem Distinct.register {s : Tables} (h : Distinct s) (user : String) (params : ProblemParams) :
    Distinct (s.register user params) := by
  intro p hp
  rw [Tables.registered_register, not_or] at hp
  rw [Tables.cases_register]
  exact h p hp.1

theorem Distinct.next {s : Tables} (h : Distinct s) {upload : Upload} (hok : CountsCases s upload) :
    Distinct (upload.next s) := by
  have hchanges := upload.changes s
  generalize upload.next s = s' at hchanges
  cases hchanges with
  | refused => exact h
  | mark hstaff => exact h
  | addCase haccept => exact h.addCase (hok haccept)
  | register haccept => exact h.register _ _
  | drop hstaff => exact h.drop _

theorem Served.distinct {lib : Library} {m₀ m : Memory} (h : Served lib CountsCases m₀ m)
    (h0 : m₀.NoUploads) : Distinct m.tables := by
  refine h.induct ?_ (fun _ _ hs hok => hs.next hok) fun _ _ _ hs => hs
  intro p _
  simp [Tables.cases, Memory.tables, h0.test_cases]

/-- When `add_problem` answers 200, the number that it was given is that of the tests, which have
different input files. -/
theorem accepted_problem_is_complete {lib : Library} {m₀ m m' : Memory} {user : String}
    {params : ProblemParams} {body : Bytes} {e : Event effects} (h0 : m₀.NoUploads)
    (h : Served lib CountsCases m₀ m) (hok : CountsCases m.tables (.problem user params body))
    (hruns : (Upload.problem user params body).prog.runs (alone lib) m = some ((), m'))
    (he : e ∈ (Upload.problem user params body).prog.events (alone lib) m)
    (hcode : e.op = .set_status_code "200") :
    ∃ n ≥ 1, params.test_num = toString n ∧
      (m'.test_cases.filter (·.problem_id = params.problem_id)).length = n ∧
      ((m'.test_cases.filter (·.problem_id = params.problem_id)).map
        (·.input_file_path)).Nodup := by
  have haccept := acceptsProblem_of_answer he hcode
  obtain ⟨hstaff, hregistered, -⟩ := Tables.acceptsProblem_iff.mp haccept
  obtain ⟨hpos, hnum⟩ :=
    (h.counted h0).accepted haccept ((hok hstaff).resolve_left hregistered)
  obtain ⟨m₁, hruns₁, htables⟩ := (Upload.problem user params body).runs_tables lib m
  cases hruns.symm.trans hruns₁
  have hcases : m'.tables.cases params.problem_id = m.tables.cases params.problem_id := by
    rw [htables, Upload.next, if_pos haccept, Tables.cases_register]
  refine ⟨(m.tables.cases params.problem_id).length, hpos, hnum, congrArg List.length hcases, ?_⟩
  show ((m'.tables.cases params.problem_id).map (·.input_file_path)).Nodup
  rw [hcases]
  exact h.distinct h0 params.problem_id hregistered

/-- The request answers 200. -/
def answers200 (lib : Library) (upload : Upload) (m : Memory) : Bool :=
  (upload.prog.events (alone lib) m).any (·.op = .set_status_code "200")

theorem accepted_problem_is_complete_p1 : ∃ m',
    ∃ n ≥ 1, (sampleParams "2").test_num = toString n ∧
      (Memory.test_cases m' |>.filter (·.problem_id = "p1")).length = n ∧
      ((m'.test_cases.filter (·.problem_id = "p1")).map (·.input_file_path)).Nodup := by
  obtain ⟨m, hserved, hm⟩ := exists_served .sample CountsCases (.account "T" "teacher")
    [.testIn "T" "p1" "1" [], .testOut "T" "p1" "1" [], .testIn "T" "p1" "2" [],
      .testOut "T" "p1" "2" []]
    (fun m => (decide (CountsCases m.tables (.problem "T" (sampleParams "2") [])),
      answers200 .sample (.problem "T" (sampleParams "2") []) m))
    (true, true) (by decide +kernel)
  obtain ⟨e, he, hcode⟩ := List.any_eq_true.mp (congrArg Prod.snd hm)
  obtain ⟨m', hruns, -⟩ :=
    (Upload.problem "T" (sampleParams "2") []).runs_tables .sample m
  exact ⟨m', accepted_problem_is_complete (.account "T" "teacher") hserved
    (of_decide_eq_true (congrArg Prod.fst hm)) hruns he (of_decide_eq_true hcode)⟩

/-- One test uploaded twice counts as two, and a problem with that number is accepted. -/
theorem one_case_counts_twice : ∃ m m',
    Served .sample (fun _ _ => True) (.account "T" "teacher") m ∧
      (Upload.problem "T" (sampleParams "2") []).prog.runs (alone .sample) m = some ((), m') ∧
      answers200 .sample (.problem "T" (sampleParams "2") []) m = true ∧
      m'.test_cases.map (·.input_file_path) = ["p1_input_1.txt", "p1_input_1.txt"] := by
  obtain ⟨m, hserved, hm⟩ := exists_served .sample (fun _ _ => True) (.account "T" "teacher")
    [.testIn "T" "p1" "1" [], .testOut "T" "p1" "1" [], .testIn "T" "p1" "1" [],
      .testOut "T" "p1" "1" []]
    (fun m => (answers200 .sample (.problem "T" (sampleParams "2") []) m,
      ((Upload.problem "T" (sampleParams "2") []).prog.runs (alone .sample) m).map
        fun e => e.2.test_cases.map (·.input_file_path)))
    (true, some ["p1_input_1.txt", "p1_input_1.txt"]) (by decide +kernel)
  obtain ⟨⟨⟨⟩, m'⟩, hruns, hcases⟩ := Option.map_eq_some_iff.mp (congrArg Prod.snd hm)
  exact ⟨m, m', hserved, hruns, congrArg Prod.fst hm, hcases⟩

end OJJudge.Storage
