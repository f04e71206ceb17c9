import OJJudge.Storage.Uploads

/-! Histories of complete uploads, one after the other.  As long as a problem is not registered, its
counter counts its rows; whether the judge and the pollers then agree on the number of its tests, and
whether the check of `add_problem` finds as many different cases as it asks for, depends on what
staff do later and before. -/

namespace OJJudge.Storage

open Concurrency

/-! ### Keys -/

@[simp] theorem counterKey_inj {p q : String} : counterKey p = counterKey q ↔ p = q := by
  simp [counterKey]

theorem counterKey_ne_inCaseName (p q case_id : String) : counterKey p ≠ inCaseName q case_id :=
  ne_of_getLast (by decide) (by decide) (by decide) _ _

/-! ### The tables after one upload -/

namespace Tables

variable {s : Tables} {p q case_id : String}

@[simp] theorem cases_setRedis (key : String) (value : Option String) :
    (s.setRedis key value).cases p = s.cases p := rfl

@[simp] theorem registered_setRedis (key : String) (value : Option String) :
    (s.setRedis key value).Registered p ↔ s.Registered p := Iff.rfl

@[simp] theorem registered_drop : (s.drop q).Registered p ↔ s.Registered p := Iff.rfl

@[simp] theorem registered_addCase : (s.addCase q case_id).Registered p ↔ s.Registered p := Iff.rfl

theorem registered_register {user : String} {params : ProblemParams} :
    (s.register user params).Registered p ↔ s.Registered p ∨ params.problem_id = p := by
  simp [Registered, register]

@[simp] theorem cases_register (user : String) (params : ProblemParams) :
    (s.register user params).cases p = s.cases p := rfl

theorem cases_drop : (s.drop q).cases p = if p = q then [] else s.cases p := by
  unfold cases drop
  rw [List.filter_filter]
  split
  · next h =>
    subst h
    simp
  · next h =>
    apply List.filter_congr
    intro row _
    by_cases hrow : row.problem_id = p
    · simp [hrow, h]
    · simp [hrow]

theorem cases_addCase : (s.addCase q case_id).cases p =
    if p = q then s.cases p ++ [⟨q, inCaseName q case_id, outputCaseName q case_id⟩]
    else s.cases p := by
  unfold cases addCase
  rw [List.filter_append]
  split
  · next h =>
    subst h
    simp
  · next h => simp [Ne.symm h]

@[simp] theorem counter_setRedis (value : Option String) :
    (s.setRedis (inCaseName q case_id) value).redis (counterKey p) = s.redis (counterKey p) :=
  Function.update_of_ne (counterKey_ne_inCaseName p q case_id) _ _

theorem counter_drop :
    (s.drop q).redis (counterKey p) = if p = q then none else s.redis (counterKey p) := by
  simp [drop, Function.update_apply]

theorem counter_register {user : String} {params : ProblemParams} :
    (s.register user params).redis (counterKey p) =
      if p = params.problem_id then none else s.redis (counterKey p) := by
  simp [register, Function.update_apply]

theorem counter_addCase : (s.addCase q case_id).redis (counterKey p) =
    if p = q then incrValue (s.redis (counterKey q)) else s.redis (counterKey p) := by
  simp [addCase, Function.update_apply, counterKey_ne_inCaseName]

end Tables

/-- What an upload changes in the tables, with the check that lets it. -/
inductive Upload.Changes (s : Tables) : Upload → Tables → Prop
  | refused (upload : Upload) : Changes s upload s
  | mark {user problem_id case_id : String} {body : Bytes} (hstaff : s.isStaff user = true) :
      Changes s (.testIn user problem_id case_id body)
        (s.setRedis (inCaseName problem_id case_id) (some "1"))
  | addCase {user problem_id case_id : String} {body : Bytes}
      (haccept : s.acceptsOut user problem_id case_id = true) :
      Changes s (.testOut user problem_id case_id body) (s.addCase problem_id case_id)
  | register {user : String} {params : ProblemParams} {body : Bytes}
      (haccept : s.acceptsProblem user params = true) :
      Changes s (.problem user params body) (s.register user params)
  | drop {user : String} {params : ProblemParams} {body : Bytes} (hstaff : s.isStaff user = true) :
      Changes s (.problem user params body) (s.drop params.problem_id)

theorem Upload.changes (s : Tables) (upload : Upload) : upload.Changes s (upload.next s) := by
  cases upload with
  | testIn user problem_id case_id body =>
    simp only [Upload.next]
    split
    · next hstaff => exact .mark hstaff
    · exact .refused _
  | testOut user problem_id case_id body =>
    simp only [Upload.next]
    split
    · next haccept => exact .addCase haccept
    · exact .refused _
  | problem user params body =>
    simp only [Upload.next]
    split
    · next haccept => exact .register haccept
    · split
      · next hstaff => exact .drop hstaff
      · exact .refused _

/-! ### Histories -/

/-- The memories that complete uploads reach when each of them satisfies `ok` in the tables before
it.  Between them, a marker can reach its time limit. -/
inductive Served (lib : Library) (ok : Tables → Upload → Prop) (m₀ : Memory) : Memory → Prop
  | start : Served lib ok m₀ m₀
  | serve {m m' : Memory} {upload : Upload} (h : Served lib ok m₀ m) (hok : ok m.tables upload)
      (hruns : upload.prog.runs (alone lib) m = some ((), m')) : Served lib ok m₀ m'
  | lapse {m : Memory} (problem_id case_id : String) (h : Served lib ok m₀ m) :
      Served lib ok m₀ (m.setRedis (inCaseName problem_id case_id) none)

section Histories

variable {lib : Library} {ok : Tables → Upload → Prop} {m₀ m : Memory}

/-- Induction over a history, on its tables. -/
theorem Served.induct {I : Tables → Prop} (h : Served lib ok m₀ m) (start : I m₀.tables)
    (next : ∀ s upload, I s → ok s upload → I (upload.next s))
    (lapse : ∀ s problem_id case_id, I s → I (s.setRedis (inCaseName problem_id case_id) none)) :
    I m.tables := by
  induction h with
  | start => exact start
  | @serve m m' upload h hok hruns ih =>
    obtain ⟨m₁, hruns₁, htables⟩ := upload.runs_tables lib m
    cases hruns.symm.trans hruns₁
    rw [htables]
    exact next m.tables upload ih hok
  | lapse problem_id case_id h ih => exact lapse _ problem_id case_id ih

/-- Serves the listed uploads in order, as long as `ok` lets them. -/
def serveAll (lib : Library) (ok : Tables → Upload → Prop) [∀ s upload, Decidable (ok s upload)] :
    List Upload → Memory → Option Memory
  | [], m => some m
  | upload :: rest, m =>
    if ok m.tables upload then
      (upload.prog.runs (alone lib) m).bind fun e => serveAll lib ok rest e.2
    else none

theorem Served.of_serveAll [∀ s upload, Decidable (ok s upload)] {uploads : List Upload} {m' : Memory}
    (h : Served lib ok m₀ m) (hserve : serveAll lib ok uploads m = some m') :
    Served lib ok m₀ m' := by
  induction uploads generalizing m with
  | nil =>
    cases hserve
    exact h
  | cons upload rest ih =>
    simp only [serveAll] at hserve
    split at hserve
    · next hok =>
      obtain ⟨⟨⟨⟩, m₁⟩, hruns, hrest⟩ := Option.bind_eq_some_iff.mp hserve
      exact ih (h.serve hok hruns) hrest
    · cases hserve

/-- Uploads show that a memory with the observed value `v` is reached. -/
theorem exists_served {β : Type} (lib : Library) (ok : Tables → Upload → Prop)
    [∀ s upload, Decidable (ok s upload)] (m₀ : Memory) (uploads : List Upload) (f : Memory → β)
    (v : β) (h : (serveAll lib ok uploads m₀).map f = some v) :
    ∃ m, Served lib ok m₀ m ∧ f m = v := by
  obtain ⟨m, hserve, hv⟩ := Option.map_eq_some_iff.mp h
  exact ⟨m, Served.start.of_serveAll hserve, hv⟩

end Histories

/-! ### Until a problem is registered, its counter counts its rows -/

/-- The value of a counter that counts `n` rows. -/
def countValue (n : Nat) : Option String := if n = 0 then none else some n.repr

@[simp] theorem countValue_zero : countValue 0 = none := rfl

theorem countValue_pos {n : Nat} (h : 0 < n) : countValue n = some n.repr := if_neg (by omega)

@[simp] theorem incrValue_countValue (n : Nat) : incrValue (countValue n) = countValue (n + 1) := by
  cases n with
  | zero => rfl
  | succ n => exact incrValue_repr_nat (n + 1)

/-- A missing counter reads as zero. -/
theorem countValue_getD (n : Nat) : (countValue n).getD "0" = n.repr := by
  cases n with
  | zero => rfl
  | succ n => rfl

def Counted (s : Tables) : Prop :=
  ∀ p, ¬s.Registered p → s.redis (counterKey p) = countValue (s.cases p).length

theorem Counted.drop {s : Tables} (h : Counted s) (q : String) : Counted (s.drop q) := by
  intro p hp
  rw [Tables.counter_drop, Tables.cases_drop]
  by_cases hpq : p = q
  · simp [hpq]
  · rw [if_neg hpq, if_neg hpq]
    exact h p hp

theorem Counted.addCase {s : Tables} (h : Counted s) (q case_id : String) :
    Counted (s.addCase q case_id) := by
  intro p hp
  rw [Tables.counter_addCase, Tables.cases_addCase]
  by_cases hpq : p = q
  · subst hpq
    rw [if_pos rfl, if_pos rfl, h p hp, incrValue_countValue, List.length_append,
      List.length_singleton]
  · rw [if_neg hpq, if_neg hpq]
    exact h p hp

theorem Counted.register {s : Tables} (h : Counted s) (user : String) (params : ProblemParams) :
    Counted (s.register user params) := by
  intro p hp
  rw [Tables.registered_register, not_or] at hp
  rw [Tables.counter_register, Tables.cases_register, if_neg (Ne.symm hp.2)]
  exact h p hp.1

theorem Counted.setRedis {s : Tables} (h : Counted s) (q case_id : String)
    (value : Option String) : Counted (s.setRedis (inCaseName q case_id) value) := by
  intro p hp
  rw [Tables.counter_setRedis, Tables.cases_setRedis]
  exact h p hp

theorem Counted.next {s : Tables} (h : Counted s) (upload : Upload) : Counted (upload.next s) := by
  have hchanges := upload.changes s
  generalize upload.next s = s' at hchanges
  cases hchanges with
  | refused => exact h
  | mark hstaff => exact h.setRedis _ _ _
  | addCase haccept => exact h.addCase _ _
  | register haccept => exact h.register _ _
  | drop hstaff => exact h.drop _

/-- The memory before any upload. -/
structure Memory.NoUploads (m : Memory) : Prop where
  problems_cpp : m.problems_cpp = []
  test_cases : m.test_cases = []
  redis : ∀ key, m.redis key = none

theorem Memory.NoUploads.counted {m : Memory} (h : m.NoUploads) : Counted m.tables := by
  intro p _
  simp [Tables.cases, Memory.tables, h.test_cases, h.redis]

theorem Served.counted {lib : Library} {ok : Tables → Upload → Prop} {m₀ m : Memory}
    (h : Served lib ok m₀ m) (h0 : m₀.NoUploads) : Counted m.tables :=
  h.induct h0.counted (fun _ upload hs _ => hs.next upload)
    fun _ problem_id case_id hs => hs.setRedis problem_id case_id none

/-- A number of tests that `add_problem` accepts, and that is not missing together with the counter,
is the number of rows. -/
theorem Counted.accepted {s : Tables} (h : Counted s) {user : String} {params : ProblemParams}
    (haccept : s.acceptsProblem user params = true)
    (hnum : s.redis (counterKey params.problem_id) = none → params.test_num ≠ "") :
    0 < (s.cases params.problem_id).length ∧
      params.test_num = (s.cases params.problem_id).length.repr := by
  obtain ⟨-, hregistered, hcount⟩ := Tables.acceptsProblem_iff.mp haccept
  have hcounter := h params.problem_id hregistered
  obtain hzero | hpos := Nat.eq_zero_or_pos (s.cases params.problem_id).length
  · rw [hzero] at hcounter
    rw [hcounter] at hcount
    exact absurd hcount.symm (hnum hcounter)
  · rw [hcounter, countValue_pos hpos] at hcount
    exact ⟨hpos, hcount.symm⟩

/-! ### The judge's count and the pollers' count -/

/-- The judge runs as many tests of a problem as the pollers wait for. -/
def Agree (s : Tables) : Prop :=
  ∀ problem ∈ s.problems_cpp, problem.test_num = (s.cases problem.title).length.repr

/-- No answer file is accepted for a problem that is registered, no staff user adds such a problem
once more, and none adds a problem without `test_num` while no test of it is counted. -/
def KeepsCount (s : Tables) : Upload → Prop
  | .testIn _ _ _ _ => True
  | .testOut user problem_id case_id _ =>
    s.acceptsOut user problem_id case_id = true → ¬s.Registered problem_id
  | .problem user params _ => s.isStaff user = true → ¬s.Registered params.problem_id ∧
    (s.redis (counterKey params.problem_id) = none → params.test_num ≠ "")

instance (s : Tables) : (upload : Upload) → Decidable (KeepsCount s upload)
  | .testIn _ _ _ _ => inferInstanceAs (Decidable True)
  | .testOut _ _ _ _ => inferInstanceAs (Decidable (_ → _))
  | .problem _ _ _ => inferInstanceAs (Decidable (_ → _ ∧ (_ → _)))

theorem Agree.addCase {s : Tables} (h : Agree s) {q : String} (hq : ¬s.Registered q)
    (case_id : String) : Agree (s.addCase q case_id) := by
  intro problem hmem
  have hne : problem.title ≠ q := fun heq => hq ⟨problem, hmem, heq⟩
  rw [Tables.cases_addCase, if_neg hne]
  exact h problem hmem

theorem Agree.drop {s : Tables} (h : Agree s) {q : String} (hq : ¬s.Registered q) :
    Agree (s.drop q) := by
  intro problem hmem
  have hne : problem.title ≠ q := fun heq => hq ⟨problem, hmem, heq⟩
  rw [Tables.cases_drop, if_neg hne]
  exact h problem hmem

/-- The number of tests that `add_problem` accepts is the number of rows. -/
theorem Agree.register {s : Tables} (h : Agree s) (hcounted : Counted s) {user : String}
    {params : ProblemParams} (haccept : s.acceptsProblem user params = true)
    (hnum : s.redis (counterKey params.problem_id) = none → params.test_num ≠ "") :
    Agree (s.register user params) := by
  intro problem hmem
  rw [Tables.cases_register]
  obtain hmem | hmem := List.mem_append.mp hmem
  · exact h problem hmem
  · obtain rfl := List.mem_singleton.mp hmem
    exact (hcounted.accepted haccept hnum).2

theorem Agree.next {s : Tables} (h : Agree s) (hcounted : Counted s) {upload : Upload}
    (hok : KeepsCount s upload) : Agree (upload.next s) := by
  have hchanges := upload.changes s
  generalize upload.next s = s' at hchanges
  cases hchanges with
  | refused => exact h
  | mark hstaff => exact h
  | addCase haccept => exact h.addCase (hok haccept) _
  | register haccept =>
    exact h.register hcounted haccept (hok (Tables.acceptsProblem_iff.mp haccept).1).2
  | drop hstaff => exact h.drop (hok hstaff).1

/-- Judge and pollers count the same tests. -/
theorem judge_and_poller_agree {lib : Library} {m₀ m : Memory} (h0 : m₀.NoUploads)
    (h : Served lib KeepsCount m₀ m) : ∀ problem ∈ m.problems_cpp,
      problem.test_num =
        toString (m.test_cases.filter (·.problem_id = problem.title)).length := by
  have hagree : Counted m.tables ∧ Agree m.tables := by
    refine h.induct (I := fun s => Counted s ∧ Agree s) ⟨h0.counted, fun problem hmem => ?_⟩ ?_ ?_
    · rw [Memory.tables, h0.problems_cpp] at hmem
      cases hmem
    · exact fun s upload hs hok => ⟨hs.1.next upload, hs.2.next hs.1 hok⟩
    · exact fun s problem_id case_id hs => ⟨hs.1.setRedis problem_id case_id none, hs.2⟩
  exact hagree.2

theorem Memory.NoUploads.account (username role : String) :
    (Memory.account username role).NoUploads :=
  ⟨rfl, rfl, fun _ => rfl⟩

/-- The parameters of a problem with the given `test_num`. -/
def sampleParams (test_num : String) : ProblemParams :=
  ⟨"p1", "easy", "1", "64", "1", test_num⟩

theorem judge_and_poller_agree_p1 : ∃ m, Served .sample KeepsCount (.account "T" "teacher") m ∧
    m.problems_cpp.map (·.title) = ["p1"] ∧ ∀ problem ∈ m.problems_cpp,
      problem.test_num =
        toString (m.test_cases.filter (·.problem_id = problem.title)).length := by
  obtain ⟨m, hserved, hm⟩ := exists_served .sample KeepsCount (.account "T" "teacher")
    [.testIn "T" "p1" "1" [], .testOut "T" "p1" "1" [], .problem "T" (sampleParams "1") []]
    (fun m => m.problems_cpp.map (·.title)) ["p1"] (by decide +kernel)
  exact ⟨m, hserved, hm, judge_and_poller_agree (.account "T" "teacher") hserved⟩

/-- A staff user adds a registered problem once more.  The request is refused, but it deletes the
rows of the problem, for whose one test the pollers still wait. -/
theorem refused_problem_loses_cases : ∃ m,
    Served .sample (fun _ _ => True) (.account "T" "teacher") m ∧
      m.problems_cpp.map (fun problem => (problem.title, problem.test_num)) = [("p1", "1")] ∧
      m.test_cases = [] := by
  obtain ⟨m, hserved, hm⟩ := exists_served .sample (fun _ _ => True) (.account "T" "teacher")
    [.testIn "T" "p1" "1" [], .testOut "T" "p1" "1" [], .problem "T" (sampleParams "1") [],
      .problem "T" (sampleParams "1") []]
    (fun m => (m.problems_cpp.map fun problem => (problem.title, problem.test_num), m.test_cases))
    ([("p1", "1")], []) (by decide +kernel)
  exact ⟨m, hserved, congrArg Prod.fst hm, congrArg Prod.snd hm⟩

end OJJudge.Storage
