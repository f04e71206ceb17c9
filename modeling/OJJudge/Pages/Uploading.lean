import OJJudge.Pages.Answers

/-! The run of the dialog over its desk, from the first file to the answer to the problem.  The counter
starts where earlier uploads have left it, so it gets to the number of the tests exactly when they have
left nothing there. -/

namespace OJJudge.Pages

open Concurrency Storage

/-! ### The run of the page -/

/-- The rows of `n` tests from `i` on. -/
def newCases (problem_id : String) (i n : Nat) : List TestCase :=
  (List.range' i n).map fun j =>
    ⟨problem_id, inCaseName problem_id (toString j), outputCaseName problem_id (toString j)⟩

/-- The dialog lets the upload start, and the file of the problem is there. -/
structure QuestionsForm.Complete (form : QuestionsForm) : Prop where
  inputFiles : form.inputFiles ≠ []
  outputFiles : form.inputFiles.length = form.outputFiles.length
  problem_id : form.problem_id ≠ []
  length : jsLength form.problem_id ≤ 32
  time_limit : exceeds form.time_limit 10000 = false
  mem_limit : exceeds form.mem_limit 2048 = false
  questionsFile : ∃ file, form.questionsFile = some file ∧ file.size ≤ 5 * 1024 * 1024

/-- No value holds a separator, and an `int` can index the URLs. -/
structure QuestionsForm.Sendable (form : QuestionsForm) : Prop where
  values : ∀ kv ∈ form.params, '&'.toUInt8 ∉ kv.2
  case : ∀ i < form.inputFiles.length,
    (caseUrl "/api/problem/upload_testcase_out" form.problem_id i).length < 2147483648
  problem : (requestUri (bytes "/api/add/problem") form.params).length < 2147483648

/-- From the desk `s`, the page returns values and desks that satisfy `R`. -/
abbrev Errand.Reaches {α : Type} (errand : Errand) (p : Prog actions α) (R : α → Desk → Prop)
    (s : Desk) : Prop :=
  p.Wp errand.Acts (fun _ _ => True) R s

section Page

variable {errand : Errand} {wire : Wire} {lib : Library} {s : Desk}

/-- A fetch reaches what its handler ensures. -/
theorem reaches_fetch {α : Type} {url body : Bytes} {k : Option String → Page α}
    {Q : Option String → Desk → Prop} {R : α → Desk → Prop}
    (h : errand.Ensures (wire.serve lib ⟨url, body⟩) Q s)
    (hk : ∀ r s', Q r s' → errand.Reaches ((k r).calls (wire.act lib)) R s') :
    errand.Reaches ((fetch url body >>= k).calls (wire.act lib)) R s := by
  have hserve : errand.Reaches (onServer (wire.serve lib ⟨url, body⟩)) Q s := by
    refine Prog.Wp.calls (fun s o _ => ?_) h
    exact ⟨trivial, fun _ _ hserves => hserves⟩
  exact hserve.bind hk

theorem reaches_setText {α : Type} {text : String} {k : Unit → Page α} {R : α → Desk → Prop}
    (hk : errand.Reaches ((k ()).calls (wire.act lib)) R { s with text := text }) :
    errand.Reaches ((setText text >>= k).calls (wire.act lib)) R s := by
  refine ⟨trivial, ?_⟩
  rintro _ _ rfl
  exact hk

theorem length_caseUrl_in (problemId : Bytes) (i : Nat) :
    (caseUrl "/api/problem/upload_testcase_in" problemId i).length <
      (caseUrl "/api/problem/upload_testcase_out" problemId i).length := by
  have hpath : (bytes "/api/problem/upload_testcase_in").length <
      (bytes "/api/problem/upload_testcase_out").length := by decide +kernel
  simp only [caseUrl, List.length_append]
  omega

/-- The loop counts its tests and appends their rows. -/
theorem reaches_uploadCases {problemId : Bytes} (hruns : errand.Runs wire problemId)
    (hunset : wire.unset = "200") (hid : '&'.toUInt8 ∉ problemId)
    {tests : List (Bytes × Bytes)} {i : Nat}
    (hshort : ∀ j < i + tests.length,
      (caseUrl "/api/problem/upload_testcase_out" problemId j).length < 2147483648)
    (hsession : s.session = some errand.user) :
    errand.Reaches ((uploadCases problemId i tests).calls (wire.act lib))
      (fun uploaded s' => uploaded = true ∧ ∃ marker, s' = { s with
        counter := incrValue^[tests.length] s.counter
        marker := marker
        cases := s.cases ++ newCases errand.problem_id i tests.length }) s := by
  induction tests generalizing i s with
  | nil =>
    refine ⟨rfl, s.marker, ?_⟩
    simp [newCases]
  | cons test rest ih =>
    obtain ⟨inputContent, outputContent⟩ := test
    have hout := hshort i (by simp)
    have hin := (length_caseUrl_in problemId i).trans hout
    refine reaches_fetch (ensures_testIn lib inputContent hruns hid hin hsession) ?_
    rintro _ _ ⟨rfl, rfl⟩
    simp only [hunset, ne_eq, not_true_eq_false, if_false]
    refine reaches_fetch (ensures_testOut lib outputContent hruns hid hout hsession
      (Function.update_self ..)) ?_
    rintro _ _ ⟨rfl, rfl⟩
    simp only [not_true_eq_false, if_false]
    refine (ih ?_ ?_).mono (fun _ _ _ => trivial) ?_
    · intro j hj
      exact hshort j (by rw [List.length_cons]; omega)
    · exact hsession
    · rintro uploaded s' ⟨rfl, marker, rfl⟩
      refine ⟨rfl, marker, ?_⟩
      simp [newCases, List.range'_succ]

/-- The desk after the tests of the dialog, but for the markers. -/
def Desk.uploaded (s : Desk) (form : QuestionsForm) : Desk :=
  { s with
    counter := incrValue^[form.inputFiles.length] s.counter
    cases := s.cases ++ newCases form.problemParams.problem_id 0 form.inputFiles.length
    text := "测试用例上传成功，正在上传题目..." }

/-- What the dialog is answered in the end, and the desk then, but for the markers and the text. -/
def Desk.upload (s : Desk) (user : String) (form : QuestionsForm) : String × Desk :=
  (s.uploaded form).register user form.problemParams

/-- The desk `s'` is what the upload of the dialog leaves, with some markers. -/
def Errand.Leaves (errand : Errand) (form : QuestionsForm) (s s' : Desk) : Prop :=
  ∃ marker, s' = { (s.upload errand.user form).2 with
    marker := marker
    text := problemText (some (s.upload errand.user form).1) }

/-- The answer to the problem does not depend on the markers. -/
theorem register_marker (s : Desk) (marker : String → Option String) (user : String)
    (params : ProblemParams) :
    Desk.register { s with marker := marker } user params =
      ((s.register user params).1, { (s.register user params).2 with marker := marker }) := by
  simp only [Desk.register]
  split
  · rfl
  · split <;> rfl

theorem reaches_uploadQuestions {form : QuestionsForm} (hruns : errand.Runs wire form.problem_id)
    (hunset : wire.unset = "200") (hform : form.Complete) (hsend : form.Sendable)
    (hsession : s.session = some errand.user) :
    errand.Reaches ((uploadQuestions form).calls (wire.act lib))
      (fun _ s' => errand.Leaves form s s') s := by
  have hinput : form.inputFiles.length ≠ 0 := fun h => hform.inputFiles (List.length_eq_zero_iff.mp h)
  have hlength : (form.inputFiles.zip form.outputFiles).length = form.inputFiles.length := by
    rw [List.length_zip, hform.outputFiles, Nat.min_self]
  have hid : '&'.toUInt8 ∉ form.problem_id :=
    hsend.values (bytes "problem_id", form.problem_id) (List.mem_cons_self ..)
  obtain ⟨file, hfile, hsize⟩ := hform.questionsFile
  rw [uploadQuestions]
  refine reaches_setText ?_
  rw [if_neg (by rw [← hform.outputFiles]; simpa using hinput), if_neg (not_not.mpr hform.outputFiles),
    if_neg hform.problem_id, if_neg (Nat.not_lt.mpr hform.length), hform.time_limit,
    hform.mem_limit, if_neg Bool.false_ne_true, if_neg Bool.false_ne_true, Prog.calls_bind]
  refine Prog.Wp.bind (reaches_uploadCases hruns hunset hid (by simpa [hlength] using hsend.case)
    hsession) ?_
  rintro uploaded s' ⟨rfl, marker, rfl⟩
  rw [if_pos rfl, uploadProblem, hfile]
  refine reaches_setText ?_
  dsimp only
  rw [if_neg (Nat.not_lt.mpr hsize)]
  refine reaches_fetch (ensures_problem lib file.text hruns hsend.values hsend.problem hsession) ?_
  rintro _ _ ⟨rfl, rfl⟩
  refine ⟨trivial, ?_⟩
  rintro _ _ rfl
  have hregister := register_marker (s.uploaded form) marker errand.user form.problemParams
  refine ⟨marker, ?_⟩
  simp only [hlength, hruns.problem_id]
  exact congrArg (fun e : String × Desk => { e.2 with text := problemText (some e.1) }) hregister

end Page

/-! ### The count that the problem is checked against -/

theorem incrValue_iterate_repr (n : Nat) (x : Int) :
    incrValue^[n] (some x.repr) = some (x + n).repr := by
  induction n generalizing x with
  | zero => simp
  | succ n ih =>
    rw [Function.iterate_succ_apply, incrValue_repr, ih, Nat.cast_add_one]
    congr 2
    omega

theorem incrValue_iterate_count (n m : Nat) :
    incrValue^[n] (countValue m) = countValue (m + n) := by
  induction n generalizing m with
  | zero => rfl
  | succ n ih =>
    rw [Function.iterate_succ_apply, incrValue_countValue, ih, Nat.add_right_comm]
    rfl

/-- A counter gets to the number of the tests exactly when it starts at nothing or at zero. -/
theorem incrValue_iterate_eq {n : Nat} (hn : 0 < n) (v : Option String) :
    (incrValue^[n] v).getD "" = toString n ↔ v = none ∨ v = some "0" := by
  cases v with
  | none =>
    have hcount := incrValue_iterate_count n 0
    rw [Nat.zero_add, countValue_pos hn, countValue_zero] at hcount
    simp [hcount]
  | some v =>
    cases hread : readInt v with
    | some x =>
      have hv : x.repr = v := by
        unfold readInt at hread
        split at hread
        · next hrepr =>
          cases hread
          exact hrepr
        · cases hread
      subst hv
      rw [incrValue_iterate_repr, Option.getD_some]
      constructor
      · intro h
        have hsame := congrArg readInt h
        rw [readInt_repr, Nat.toString_eq_repr, ← repr_natCast, readInt_repr, Option.some_inj] at hsame
        obtain rfl : x = 0 := by omega
        exact .inr rfl
      · rintro (h | h)
        · cases h
        · have hsame := congrArg readInt (Option.some_inj.mp h)
          rw [readInt_repr, show readInt "0" = some 0 from readInt_repr 0, Option.some_inj] at hsame
          subst hsame
          simp
    | none =>
      have hstays : ∀ n, incrValue^[n] (some v) = some v := by
        intro n
        induction n with
        | zero => rfl
        | succ n ih => rw [Function.iterate_succ_apply, incrValue, hread, ih]
      rw [hstays, Option.getD_some]
      constructor
      · rintro rfl
        rw [Nat.toString_eq_repr, ← repr_natCast, readInt_repr] at hread
        cases hread
      · rintro (h | h)
        · cases h
        · rw [Option.some_inj.mp h, show readInt "0" = some 0 from readInt_repr 0] at hread
          cases hread

end OJJudge.Pages
