import OJJudge.Pages.Outcomes
import OJJudge.Server.Neighbours

/-! Uploads next to everything else that the server runs.  Under ordinary problem ids, only an upload
of the same problem and a login that makes the session anew get at the desk of an upload, so uploads
of different problems keep apart. -/

namespace OJJudge.Pages

open Concurrency Storage

/-! ### Keys -/

/-- A text without an underscore that begins a key of a problem begins its id. -/
theorem prefix_of_append {w p s : List Char} (hw : '_' ∉ w) (h : w <+: p ++ '_' :: s) : w <+: p := by
  obtain hprefix | ⟨rest, hrest⟩ := List.prefix_or_prefix_of_prefix h (List.prefix_append p _)
  · exact hprefix
  · subst hrest
    cases rest with
    | nil => rw [List.append_nil]
    | cons c rest =>
      obtain ⟨tail, htail⟩ := h
      rw [List.append_assoc, List.append_right_inj] at htail
      have hc : c = '_' := (List.cons.inj htail).1
      exact absurd (by simp [hc]) hw

/-- An id whose keys belong to no submission, no session and no other problem. -/
structure OrdinaryId (problem_id : String) : Prop where
  plain : Server.Plain problem_id
  judge : ¬"Judge:".toList <+: problem_id.toList
  session : ¬IsSession problem_id

section Keys

variable {errand : Errand} {problem_id : String}

theorem Errand.Runs.isSession {wire : Wire} {problemId : Bytes} (h : errand.Runs wire problemId) :
    IsSession errand.sessionKey := by
  obtain ⟨token, -, htoken⟩ := Option.map_eq_some_iff.mp h.sessionKey
  rw [← htoken]
  exact isSession_append _

theorem not_isKey_judge (hsession : IsSession errand.sessionKey) (hid : OrdinaryId errand.problem_id)
    (s : String) : ¬errand.IsKey ("Judge:" ++ s) := by
  have hbegins : "Judge:".toList <+: ("Judge:" ++ s).toList := by
    rw [String.toList_append]
    exact List.prefix_append _ _
  rintro (h | h | ⟨case_id, h⟩)
  · exact not_isSession_judge s (h ▸ hsession)
  · rw [h] at hbegins
    exact hid.judge (prefix_of_append (s := "total_case_num".toList) (by decide)
      (by simpa [counterKey] using hbegins))
  · rw [h] at hbegins
    exact hid.judge (prefix_of_append (s := "input_".toList ++ case_id.toList ++ ".txt".toList)
      (by decide) (by simpa [inCaseName] using hbegins))

theorem not_isKey_counterKey (hsession : IsSession errand.sessionKey) (hid : OrdinaryId problem_id)
    (hne : problem_id ≠ errand.problem_id) : ¬errand.IsKey (counterKey problem_id) := by
  rintro (h | h | ⟨case_id, h⟩)
  · exact hid.session (IsSession.of_counterKey (h ▸ hsession))
  · exact hne (String.append_left_inj _ |>.mp h)
  · exact counterKey_ne_inCaseName _ _ _ h

theorem not_isKey_inCaseName (hsession : IsSession errand.sessionKey) (hid : OrdinaryId problem_id)
    (hplain : Server.Plain errand.problem_id) (hne : problem_id ≠ errand.problem_id)
    (case_id : String) : ¬errand.IsKey (inCaseName problem_id case_id) := by
  rintro (h | h | ⟨case_id', h⟩)
  · exact hid.session (IsSession.of_inCaseName (h ▸ hsession))
  · exact counterKey_ne_inCaseName _ _ _ h.symm
  · have hlist := congrArg String.toList h
    simp only [inCaseName, String.toList_append, List.append_assoc] at hlist
    exact hne (String.toList_inj.mp (Server.cons_append_inj hid.plain hplain hlist).1)

end Keys

/-! ### Requests -/

/-- A request that is no upload of the problem of the errand and makes its session no other one's. -/
structure Errand.Bystander (errand : Errand) (lib : Library) (request : Request) : Prop where
  login : request.handler = .userLogin →
    (request.prog lib).Only fun o : Op => ∀ username, o ≠ .set errand.sessionKey username
  upload : ChecksRole request.handler = true → ∀ KVpairs ∈ request.req.KVpairs,
    OrdinaryId (text (KVpairs.get "problem_id")) ∧
      text (KVpairs.get "problem_id") ≠ errand.problem_id

theorem not_isKey_session {errand : Errand} (hid : OrdinaryId errand.problem_id) {token : String}
    (hne : "OJ:" ++ token ≠ errand.sessionKey) : ¬errand.IsKey ("OJ:" ++ token) := by
  rintro (h | h | ⟨case_id, h⟩)
  · exact hne h
  · exact hid.session (IsSession.of_counterKey (h ▸ isSession_append token))
  · exact hid.session (IsSession.of_inCaseName (h ▸ isSession_append token))

section Requests

variable {errand : Errand} {lib : Library}

theorem runnerOp_elsewhere (hsession : IsSession errand.sessionKey)
    (hid : OrdinaryId errand.problem_id) {conf : IsolateConf} {task : Runner_task} {o : Op}
    (ho : RunnerOp conf task o) : errand.Elsewhere (.server o) := by
  cases ho with
  | setTest i value =>
    show ¬errand.IsKey (testKey task.file_name i)
    rw [testKey, String.append_assoc, String.append_assoc]
    exact not_isKey_judge hsession hid _
  | count | setError code =>
    show ¬errand.IsKey (sumKey task.file_name)
    rw [sumKey, String.append_assoc]
    exact not_isKey_judge hsession hid _
  | _ => exact id

theorem submissionOp_elsewhere (hsession : IsSession errand.sessionKey)
    (hid : OrdinaryId errand.problem_id) {conf : IsolateConf} {user_name porblem_title : String}
    {body : Bytes} {o : Op} (ho : SubmissionOp conf user_name porblem_title body o) :
    errand.Elsewhere (.server o) := by
  cases ho with
  | setJudge => exact not_isKey_judge hsession hid _
  | reset =>
    show ¬errand.IsKey (sumKey (fileName user_name porblem_title))
    rw [sumKey, String.append_assoc]
    exact not_isKey_judge hsession hid _
  | job task hpath hname ho => exact runnerOp_elsewhere hsession hid ho
  | _ => exact id

theorem stateOp_elsewhere (hsession : IsSession errand.sessionKey)
    (hid : OrdinaryId errand.problem_id) {user_name porblem_title : String} {o : Op}
    (ho : StateOp user_name porblem_title o) : errand.Elsewhere (.server o) := by
  cases ho with
  | delTest i =>
    show ¬errand.IsKey (testKey (fileName user_name porblem_title) i)
    rw [testKey, String.append_assoc, String.append_assoc]
    exact not_isKey_judge hsession hid _
  | getSum | getTest i => trivial
  | _ => exact id

theorem addProblemOp_elsewhere (hsession : IsSession errand.sessionKey) {Creater_user_id : String}
    {params : ProblemParams} {body : Bytes} (hother : OrdinaryId params.problem_id)
    (hne : params.problem_id ≠ errand.problem_id) {o : Op}
    (ho : AddProblemOp Creater_user_id params body o) : errand.Elsewhere (.server o) := by
  cases ho with
  | delCounter => exact not_isKey_counterKey hsession hother hne
  | deleteRows | insertProblem => exact hne
  | selectRole | selectProblem | getCounter => trivial
  | _ => exact id

theorem addTestInOp_elsewhere (hsession : IsSession errand.sessionKey)
    (hid : OrdinaryId errand.problem_id) {conf : IsolateConf}
    {Creater_user_id problem_id case_id : String} {body : Bytes} (hother : OrdinaryId problem_id)
    (hne : problem_id ≠ errand.problem_id) {o : Op}
    (ho : AddTestInOp conf Creater_user_id problem_id case_id body o) :
    errand.Elsewhere (.server o) := by
  cases ho with
  | setMarker => exact not_isKey_inCaseName hsession hother hid.plain hne case_id
  | selectRole => trivial
  | _ => exact id

theorem addTestOutOp_elsewhere (hsession : IsSession errand.sessionKey)
    (hid : OrdinaryId errand.problem_id) {conf : IsolateConf}
    {Creater_user_id problem_id case_id : String} {body : Bytes} (hother : OrdinaryId problem_id)
    (hne : problem_id ≠ errand.problem_id) {o : Op}
    (ho : AddTestOutOp conf Creater_user_id problem_id case_id body o) :
    errand.Elsewhere (.server o) := by
  cases ho with
  | count => exact not_isKey_counterKey hsession hother hne
  | delMarker => exact not_isKey_inCaseName hsession hother hid.plain hne case_id
  | insertTestCase => exact hne
  | selectRole | getMarker => trivial
  | _ => exact id

/-- A bystander leaves the desk alone, whatever its handler is. -/
theorem request_elsewhere (hsession : IsSession errand.sessionKey)
    (hid : OrdinaryId errand.problem_id) {request : Request} (h : errand.Bystander lib request) :
    (request.prog lib).Only fun o => errand.Elsewhere (.server o) := by
  obtain ⟨handler, req⟩ := request
  obtain ⟨hlogin, hupload⟩ := h
  unfold Request.prog
  cases handler with
  | userRegist =>
    refine (UserInfo.userRegist_only lib req).mono fun o ho => ?_
    cases ho with
    | getSession key hkey => trivial
    | _ => exact id
  | userLogin =>
    refine ((UserInfo.userLogin_only lib req).and (hlogin rfl)).mono fun o ⟨ho, hne⟩ => ?_
    cases ho with
    | setSession token username =>
      refine not_isKey_session hid fun h => hne username ?_
      rw [h]
    | _ => exact id
  | runCpp =>
    refine withParams_only fun _ _ => session_only (fun _ => trivial) id fun _ => ?_
    exact (runCpp_only ..).mono fun o ho => submissionOp_elsewhere hsession hid ho
  | runState =>
    refine withParams_only fun _ _ => session_only (fun _ => trivial) id fun _ => ?_
    exact (runState_only ..).mono fun o ho => stateOp_elsewhere hsession hid ho
  | add_problem =>
    refine withParams_only fun KVpairs hKVpairs => session_only (fun _ => trivial) id fun _ => ?_
    obtain ⟨hother, hne⟩ := hupload rfl KVpairs hKVpairs
    exact (add_problem_only ..).mono fun o ho => addProblemOp_elsewhere hsession hother hne ho
  | add_test_in =>
    refine withParams_only fun KVpairs hKVpairs => session_only (fun _ => trivial) id fun _ => ?_
    obtain ⟨hother, hne⟩ := hupload rfl KVpairs hKVpairs
    exact (add_test_in_only ..).mono fun o ho => addTestInOp_elsewhere hsession hid hother hne ho
  | add_test_out =>
    refine withParams_only fun KVpairs hKVpairs => session_only (fun _ => trivial) id fun _ => ?_
    obtain ⟨hother, hne⟩ := hupload rfl KVpairs hKVpairs
    exact (add_test_out_only ..).mono fun o ho => addTestOutOp_elsewhere hsession hid hother hne ho
  | get_problem_list => exact get_problem_list_elsewhere errand req

end Requests

/-! ### Pages -/

/-- The operations of the page. -/
inductive QuestionsForm.Asks (form : QuestionsForm) : PageOp → Prop
  | setText (text : String) : form.Asks (.setText text)
  | testIn (i : Nat) (hi : i < form.inputFiles.length) (inputContent : Bytes) :
    form.Asks (.fetch ⟨caseUrl "/api/problem/upload_testcase_in" form.problem_id i, inputContent⟩)
  | testOut (i : Nat) (hi : i < form.inputFiles.length) (outputContent : Bytes) :
    form.Asks (.fetch ⟨caseUrl "/api/problem/upload_testcase_out" form.problem_id i, outputContent⟩)
  | problem (body : Bytes) :
    form.Asks (.fetch ⟨requestUri (bytes "/api/add/problem") form.params, body⟩)

section Pages

variable {form : QuestionsForm}

theorem setText_only (text : String) : (setText text).Only form.Asks := ⟨.setText text, fun _ => trivial⟩

theorem uploadCases_only {tests : List (Bytes × Bytes)} {i : Nat}
    (hlength : i + tests.length ≤ form.inputFiles.length) :
    (uploadCases form.problem_id i tests).Only form.Asks := by
  induction tests generalizing i with
  | nil => trivial
  | cons test rest ih =>
    obtain ⟨inputContent, outputContent⟩ := test
    rw [List.length_cons] at hlength
    refine ⟨.testIn i (by omega) inputContent, fun inputResp => ?_⟩
    cases inputResp with
    | none => trivial
    | some inputStatus =>
      by_cases hinput : inputStatus = "200"
      swap
      · simp only [Prog.bind_eq, Prog.ret_bind, Prog.pure_eq, ne_eq, hinput, not_false_eq_true, if_true]
        exact (setText_only _).bind fun _ => trivial
      · simp only [Prog.bind_eq, Prog.ret_bind, Prog.pure_eq, ne_eq, hinput, not_true_eq_false, if_false]
        refine ⟨.testOut i (by omega) outputContent, fun outputResp => ?_⟩
        cases outputResp with
        | none => trivial
        | some outputStatus =>
          by_cases houtput : outputStatus = "200"
          · simp only [Prog.bind_eq, Prog.ret_bind, houtput, not_true_eq_false, if_false]
            exact ih (by omega)
          · simp only [Prog.bind_eq, Prog.ret_bind, houtput, not_false_eq_true, if_true]
            exact (setText_only _).bind fun _ => trivial

theorem uploadProblem_only : (uploadProblem form).Only form.Asks := by
  refine (setText_only _).bind fun _ => ?_
  split
  · exact setText_only _
  · next file _ =>
    split
    · exact setText_only _
    · exact ⟨.problem file.text, fun resp => setText_only _⟩

theorem uploadQuestions_only : (uploadQuestions form).Only form.Asks := by
  have hlength : 0 + (form.inputFiles.zip form.outputFiles).length ≤ form.inputFiles.length := by
    rw [Nat.zero_add, List.length_zip]
    exact Nat.min_le_left _ _
  refine (setText_only _).bind fun _ => ?_
  split_ifs
  all_goals first
    | exact setText_only _
    | refine (uploadCases_only hlength).bind fun uploaded => ?_
  split
  · exact uploadProblem_only
  · trivial

theorem answer_only {K : Op → Prop} : {status : Option String} → {p : Code Unit} → p.Only K →
    (answer status p).Only K
  | _, .ret _, _ => trivial
  | _, .op _ _, h => ⟨h.1, fun r => answer_only (h.2 r)⟩

end Pages

/-! ### All parties -/

/-- A page that uploads another problem leaves the desk alone. -/
theorem dialog_elsewhere {errand : Errand} {lib : Library} (hsession : IsSession errand.sessionKey)
    (hid : OrdinaryId errand.problem_id) {other : Dialog}
    (hother : OrdinaryId other.errand.problem_id)
    (hne : other.errand.problem_id ≠ errand.problem_id) :
    (other.client.prog lib).Only errand.Elsewhere := by
  have hamp : '&'.toUInt8 ∉ other.form.problem_id :=
    other.sendable.values (bytes "problem_id", other.form.problem_id) (List.mem_cons_self ..)
  have hanswer : ∀ {handler : Handler} {req : HttpReq} {KVpairs : KVMap}, handler ≠ .userLogin →
      req.KVpairs = some KVpairs → text (KVpairs.get "problem_id") = other.errand.problem_id →
      (answer (some other.wire.unset) (Request.prog lib ⟨handler, req⟩)).Only
        fun o => errand.Elsewhere (.server o) := by
    intro handler req KVpairs hhandler hKVpairs hproblem
    refine answer_only (request_elsewhere hsession hid ⟨fun h => absurd h hhandler, ?_⟩)
    intro _ KVpairs' hKVpairs'
    obtain rfl : KVpairs = KVpairs' := Option.some_inj.mp (hKVpairs.symm.trans hKVpairs')
    rw [hproblem]
    exact ⟨hother, hne⟩
  refine uploadQuestions_only.calls fun o ho => ?_
  cases ho with
  | setText text => exact ⟨trivial, fun _ => trivial⟩
  | testIn i hi inputContent =>
    have hshort := (length_caseUrl_in other.form.problem_id i).trans (other.sendable.case i hi)
    obtain ⟨req, KVpairs, -, hKVpairs, hproblem, -, hserve⟩ :=
      serve_testIn lib inputContent other.runs hamp hshort
    refine onServer_only ?_
    rw [hserve]
    exact hanswer (by decide) hKVpairs hproblem
  | testOut i hi outputContent =>
    obtain ⟨req, KVpairs, -, hKVpairs, hproblem, -, hserve⟩ :=
      serve_testOut lib outputContent other.runs hamp (other.sendable.case i hi)
    refine onServer_only ?_
    rw [hserve]
    exact hanswer (by decide) hKVpairs hproblem
  | problem body =>
    obtain ⟨req, KVpairs, -, hKVpairs, hget, hserve⟩ :=
      serve_problem lib body other.runs other.sendable.values other.sendable.problem
    refine onServer_only ?_
    rw [hserve]
    refine hanswer (by decide) hKVpairs ?_
    rw [hget "problem_id" other.form.problem_id (List.mem_cons_self ..), other.runs.problem_id]

/-- Who is at work: a dialog, or a request of any other kind. -/
inductive Party
  | upload (dialog : Dialog)
  | request (request : Request)

def Party.client : Party → Client
  | .upload dialog => dialog.client
  | .request r => .request r

/-- Staff users are logged in and upload different problems with ordinary ids, the storage works for
these, and the requests next to them are bystanders, whose own uploads have ordinary ids too. -/
structure OrdinaryParties (lib : Library) (mayFail : Op → Bool) (parties : Nat → Party)
    (m : Memory) : Prop where
  ids : ∀ t dialog, parties t = .upload dialog → OrdinaryId dialog.errand.problem_id
  problems : ∀ t u dialog other, parties t = .upload dialog → parties u = .upload other → u ≠ t →
    other.errand.problem_id ≠ dialog.errand.problem_id
  requests : ∀ t u dialog request, parties t = .upload dialog → parties u = .request request →
    dialog.errand.Bystander lib request
  session : ∀ t dialog, parties t = .upload dialog →
    m.store.redis dialog.errand.sessionKey = some dialog.errand.user
  staff : ∀ t dialog, parties t = .upload dialog →
    m.store.tables.isStaff dialog.errand.user = true
  works : ∀ t dialog, parties t = .upload dialog → ∀ o, dialog.errand.Concerns o → mayFail o = false

section Parties

variable {lib : Library} {mayFail : Op → Bool} {parties : Nat → Party} {m : Memory}
  {ok : Config (machine lib mayFail) → Nat → Prop} {c : Config (machine lib mayFail)} {t : Nat}
  {dialog : Dialog}

theorem OrdinaryParties.undisturbed (hparties : OrdinaryParties lib mayFail parties m)
    (ht : parties t = .upload dialog) :
    dialog.errand.Undisturbed ok t (start lib mayFail (fun t => (parties t).client) m) where
  session := hparties.session t dialog ht
  staff := hparties.staff t dialog ht
  works := hparties.works t dialog ht
  others u hu _ := by
    have hsession := dialog.runs.isSession
    have hid := hparties.ids t dialog ht
    show ((parties u).client.prog lib).Only _
    cases hparty : parties u with
    | upload other =>
      exact dialog_elsewhere hsession hid (hparties.ids u other hparty)
        (hparties.problems t u dialog other ht hparty hu)
    | request request =>
      exact onServer_only (request_elsewhere hsession hid
        (hparties.requests t u dialog request ht hparty))

theorem start_prog_upload (ht : parties t = .upload dialog) :
    (start lib mayFail (fun t => (parties t).client) m).prog t = dialog.client.prog lib := by
  show (parties t).client.prog lib = _
  rw [ht]
  rfl

end Parties

/-! ### Uploads of two problems -/

/-- The dialog of a second problem. -/
def QuestionsForm.second : QuestionsForm := { QuestionsForm.sample with problem_id := bytes "q" }

def Errand.second : Errand where
  user := "T"
  problem_id := "q"
  sessionKey := "OJ:t"
  sessionKey_ne_counterKey := by decide
  sessionKey_ne_inCaseName case_id h := by
    have hhead := congrArg (fun s : String => s.toList.head?) h
    simp [inCaseName] at hhead

theorem sendable_second : QuestionsForm.second.Sendable := by
  refine ⟨?_, ?_, ?_⟩
  · decide +kernel
  · intro i hi
    obtain rfl : i = 0 := by simpa [QuestionsForm.second, QuestionsForm.sample] using hi
    decide +kernel
  · decide +kernel

theorem complete_second : QuestionsForm.second.Complete :=
  ⟨by decide, rfl, by decide, by decide, by decide, by decide, _, rfl, by decide⟩

theorem runs_second : Errand.second.Runs .sample QuestionsForm.second.problem_id :=
  ⟨by decide, by decide +kernel, by decide⟩

theorem unset_sample : Wire.sample.unset = "200" := rfl

def Dialog.second : Dialog :=
  ⟨.second, .sample, .second, runs_second, unset_sample, complete_second, sendable_second⟩

/-- The two uploads; all others ask for the list of problems. -/
def Party.samples : Nat → Party
  | 0 => .upload .sample
  | 1 => .upload .second
  | _ => .request ⟨.get_problem_list, .sample "/problem/get_problem_list?beginID=1" "token=t" ""⟩

theorem Party.samples_upload {t : Nat} {dialog : Dialog} (h : Party.samples t = .upload dialog) :
    (t = 0 ∧ dialog = .sample) ∨ (t = 1 ∧ dialog = .second) := by
  match t, h with
  | 0, h =>
    cases h
    exact .inl ⟨rfl, rfl⟩
  | 1, h =>
    cases h
    exact .inr ⟨rfl, rfl⟩

theorem ordinaryParties_samples :
    OrdinaryParties .sample (fun _ => false) Party.samples .sample where
  ids t dialog ht := by
    obtain ⟨-, rfl⟩ | ⟨-, rfl⟩ := Party.samples_upload ht
    · exact ⟨by decide, by decide, by decide⟩
    · exact ⟨by decide, by decide, by decide⟩
  problems t u dialog other ht hu hne := by
    obtain ⟨rfl, rfl⟩ | ⟨rfl, rfl⟩ := Party.samples_upload ht <;>
      obtain ⟨rfl, rfl⟩ | ⟨rfl, rfl⟩ := Party.samples_upload hu
    · exact absurd rfl hne
    · decide
    · decide
    · exact absurd rfl hne
  requests t u dialog request ht hu := by
    have hlist : request.handler = .get_problem_list := by
      match u, hu with
      | u + 2, hu =>
        cases hu
        rfl
    refine ⟨fun h => ?_, fun h => ?_⟩
    · rw [hlist] at h
      cases h
    · rw [hlist] at h
      cases h
  session t dialog ht := by
    obtain ⟨-, rfl⟩ | ⟨-, rfl⟩ := Party.samples_upload ht <;> rfl
  staff t dialog ht := by
    obtain ⟨-, rfl⟩ | ⟨-, rfl⟩ := Party.samples_upload ht <;> decide
  works _ _ _ _ _ := rfl

end OJJudge.Pages
