import OJJudge.Pages.Together
import OJJudge.Server.Passing
import OJJudge.Verdict.Trials

/-! Submissions to an uploaded problem.  What an upload has left stays, so a submission that begins
afterwards is judged with the tests of the dialog, and a poll counts to their number. -/

namespace OJJudge.Pages

open Concurrency Storage

/-! ### A submission -/

/-- A submission of the title tries the tests that the database names. -/
theorem runCpp_request_tries {req : HttpReq} {title : String} {tests : List (String × String)}
    (htitle : ∀ KVpairs ∈ req.KVpairs, text (KVpairs.get "porblem_title") = title) :
    (Judge.runCpp OJ_Judge req).Wp (Records (TestRows title tests))
      (fun h _ => ∃ user_name, Tries (fileName user_name title) tests (trials h))
      (fun _ h => ∃ user_name, Tried (fileName user_name title) tests (trials h)) [] := by
  unfold Judge.runCpp withParams
  split
  · exact ⟨"", .inl rfl⟩
  · next KVpairs hKVpairs =>
    dsimp only
    rw [htitle KVpairs hKVpairs]
    unfold session
    split
    · exact ⟨"", .inl rfl⟩
    · simp only [my_sync_check_token, effect_eq, Prog.op_bind, Prog.ret_bind, Prog.pure_eq]
      refine ⟨⟨"", tries_nil⟩, ?_⟩
      rintro v h ⟨-, rfl⟩
      dsimp only
      split
      · refine ⟨⟨"", tries_nil⟩, ?_⟩
        rintro _ h ⟨-, rfl⟩
        exact ⟨"", .inl rfl⟩
      · exact (runCpp_tries rfl).mono (fun _ _ h => ⟨_, h⟩) fun _ _ h => ⟨_, h⟩

/-- The events of a client on the server. -/
def served (h : List (Event actions)) : List (Event effects) :=
  h.filterMap fun
    | ⟨.server o, r⟩ => some ⟨o, r⟩
    | ⟨.setText _, _⟩ => none

/-- What the steps of a client add to its events on the server. -/
def Serving (A : (o : Op) → o.Res → Prop) (h : List (Event effects)) :
    (o : Action) → o.Res → List (Event effects) → Prop
  | .server o, r, h' => Records A h o r h'
  | .setText _, _, h' => h' = h

/-- A program that keeps to a specification keeps to it on the server. -/
theorem onServer_wp {A : (o : Op) → o.Res → Prop} {P : List (Event effects) → Prop} {α : Type}
    {R : α → List (Event effects) → Prop} {p : Code α} {h : List (Event effects)}
    (hp : p.Wp (Records A) (fun h _ => P h) R h) :
    (onServer p).Wp (Serving A) (fun h _ => P h) R h := by
  refine Prog.Wp.calls (fun h o hP => ?_) hp
  exact ⟨hP, fun _ _ hr => hr⟩

/-! ### After an upload -/

/-- The tests of the dialog, with the names that the upload gives them. -/
def Dialog.tests (dialog : Dialog) : List (String × String) :=
  (newCases dialog.errand.problem_id 0 dialog.form.inputFiles.length).map fun row =>
    (row.input_file_path, row.output_file_path)

section Runs

variable {errand : Errand} {lib : Library} {mayFail : Op → Bool}
  {ok ok' : Config (machine lib mayFail) → Nat → Prop}
  {init c c₁ c₂ : Config (machine lib mayFail)} {t u : Nat}

/-- The desk of a client that has returned stays as it is. -/
theorem desk_of_returned (hothers : ∀ v, v ≠ t → (c₁.prog v).Only errand.Elsewhere)
    (hdone : (c₁.prog t).returned = true) (h : Reach ok c₁ c) :
    errand.at t c = errand.at t c₁ := by
  have honly : ∀ v, (c₁.prog v).Only fun o => v ≠ t ∧ errand.Elsewhere o := by
    intro v
    by_cases hv : v = t
    · subst hv
      cases hprog : c₁.prog v with
      | ret a => trivial
      | op o k =>
        rw [hprog] at hdone
        cases hdone
    · exact (hothers v hv).mono fun o ho => ⟨hv, ho⟩
  refine h.induct (I := fun c => errand.at t c = errand.at t c₁) rfl ?_
  intro c v x o k r m hr ih _ hprog hexec
  have hop := hr.only honly v
  rw [hprog] at hop
  exact (Errand.desk_of_exec hop.1.1 hop.1.2 hexec).trans ih

/-- The look-up of the tests gives the rows of the desk, or it fails. -/
theorem testRows_of_exec {x : Choice} {o : Op} {r : o.Res} {m m' : Memory}
    (hexec : exec lib mayFail u (.server o) x m = some (r, m')) :
    TestRows errand.problem_id ((m.store.tables.cases errand.problem_id).map fun row =>
      (row.input_file_path, row.output_file_path)) o r := by
  obtain ⟨⟨r, store⟩, hstore, heq⟩ := Option.map_eq_some_iff.mp hexec
  cases heq
  cases o with
  | query stmt =>
    cases stmt with
    | selectTestCases problem_id =>
      rintro rfl
      obtain ⟨-, hr, -⟩ | ⟨hr, -⟩ := exec_cases hstore
      · exact .inl hr
      · refine .inr (hr.trans ?_)
        rw [List.map_map]
        rfl
    | _ => trivial
  | _ => trivial

/-- A desk with the row of a problem and as many rows of tests has the tests. -/
theorem hasTests_of_desk {m : Storage.Memory} {text : String} {user : String}
    {params : ProblemParams} {n : Nat}
    (hproblems : (errand.desk m text).problems = [(user, params)])
    (htest_num : params.test_num = toString n) (hcases : (errand.desk m text).cases.length = n) :
    Server.HasTests m errand.problem_id n where
  test_num := by
    obtain ⟨row, hrow, hentry⟩ := List.map_eq_singleton_iff.mp hproblems
    rw [← List.head?_filter, hrow]
    show some row.test_num = _
    rw [← htest_num, ← (Prod.mk.inj hentry).2]
  test_cases := hcases

variable {parties : Nat → Party} {m : Memory} {dialog : Dialog} {req : HttpReq}

/-- What the upload of a new problem leaves, as long as the server runs. -/
theorem desk_of_accepted (hparties : OrdinaryParties lib mayFail parties m)
    (ht : parties t = .upload dialog)
    (hproblems : (dialog.errand.desk m.store (m.text t)).problems = [])
    (hcases : (dialog.errand.desk m.store (m.text t)).cases = [])
    (hfresh : (dialog.errand.desk m.store (m.text t)).Fresh)
    (h₁ : Reach ok (start lib mayFail (fun t => (parties t).client) m) c₁)
    (hdone : (c₁.prog t).returned = true) (h : Reach ok' c₁ c) :
    (dialog.errand.at t c).problems = [(dialog.errand.user, dialog.form.problemParams)] ∧
      (dialog.errand.at t c).cases =
        newCases dialog.errand.problem_id 0 dialog.form.inputFiles.length := by
  have hquiet : dialog.errand.Undisturbed anyOrder t _ := hparties.undisturbed ht
  have hreach : Reach anyOrder _ c₁ := h₁.weaken fun _ _ _ _ => trivial
  have houtcome := dialog.outcome (leaves_of_run hquiet (start_prog_upload ht) hreach hdone)
  obtain ⟨-, haccepted, hrows⟩ := houtcome.accepted hproblems hfresh
  have hstays := desk_of_returned
    (fun v hv => elsewhere_of_run hquiet.others hreach hv ⟨c₁, trivial⟩) hdone h
  rw [hstays]
  refine ⟨haccepted, hrows.trans ?_⟩
  rw [show (dialog.errand.at t (start lib mayFail _ m)).cases = [] from hcases, List.nil_append]

/-- The run lemma for a submission: as long as the problem has the rows of the tests, it tries them. -/
theorem tries_of_run {tests : List (String × String)}
    (htitle : ∀ KVpairs ∈ req.KVpairs, text (KVpairs.get "porblem_title") = errand.problem_id)
    (hrequest : c₁.prog u = onServer (Judge.runCpp OJ_Judge req)) (hbegins : own u c₁.trace = [])
    (hrows : ∀ {c}, Reach ok c₁ c → ((c.mem.store.tables.cases errand.problem_id).map fun row =>
      (row.input_file_path, row.output_file_path)) = tests)
    (h : Reach ok c₁ c) :
    (c.prog u).Wp (Serving (TestRows errand.problem_id tests))
      (fun h _ => ∃ user_name, Tries (fileName user_name errand.problem_id) tests (trials h))
      (fun _ h => ∃ user_name, Tried (fileName user_name errand.problem_id) tests (trials h))
      (served (own u c.trace)) := by
  refine h.wp (fun c => served (own u c.trace)) u ?_ ?_ ?_
  · rw [hrequest, hbegins]
    exact onServer_wp (runCpp_request_tries htitle)
  · intro c x o k r m' hr _ _ hexec
    rw [Config.trace_after, own_cons_same]
    cases o with
    | server o =>
      have htests : TestRows errand.problem_id _ _ _ := testRows_of_exec hexec
      rw [hrows hr] at htests
      exact ⟨htests, rfl⟩
    | setText text => exact rfl
  · intro c v x o k r m' hv _ _ _ _
    exact congrArg served (own_cons_ne hv _ _)

end Runs

/-! ### An upload and a submission -/

/-- The upload of a new problem and a submission; all others ask for the list of problems. -/
def Party.uploadSubmit : Nat → Party
  | 0 => .upload .second
  | 1 => .request ⟨.runCpp, .sample "/problem/user_solve?porblem_title=q" "token=t" "int main(){}"⟩
  | _ => .request ⟨.get_problem_list, .sample "/problem/get_problem_list?beginID=1" "token=t" ""⟩

theorem Party.uploadSubmit_upload {t : Nat} {dialog : Dialog}
    (h : Party.uploadSubmit t = .upload dialog) : t = 0 ∧ dialog = .second := by
  match t, h with
  | 0, h =>
    cases h
    exact ⟨rfl, rfl⟩
  | 1, h => nomatch h
  | _ + 2, h => nomatch h

theorem ordinaryParties_uploadSubmit :
    OrdinaryParties .sample (fun _ => false) Party.uploadSubmit .sample where
  ids t dialog ht := by
    obtain ⟨-, rfl⟩ := Party.uploadSubmit_upload ht
    exact ⟨by decide, by decide, by decide⟩
  problems t u dialog other ht hu hne := by
    obtain ⟨rfl, -⟩ := Party.uploadSubmit_upload ht
    obtain ⟨rfl, -⟩ := Party.uploadSubmit_upload hu
    exact absurd rfl hne
  requests t u dialog request _ hu := by
    have hhandler : request.handler = .runCpp ∨ request.handler = .get_problem_list := by
      match u, hu with
      | 1, hu =>
        cases hu
        exact .inl rfl
      | u + 2, hu =>
        cases hu
        exact .inr rfl
    refine ⟨fun h => ?_, fun h => ?_⟩
    · rw [h] at hhandler
      obtain hhandler | hhandler := hhandler <;> cases hhandler
    · obtain hhandler | hhandler := hhandler <;> rw [hhandler] at h <;> cases h
  session t dialog ht := by
    obtain ⟨-, rfl⟩ := Party.uploadSubmit_upload ht
    rfl
  staff t dialog ht := by
    obtain ⟨-, rfl⟩ := Party.uploadSubmit_upload ht
    decide
  works _ _ _ _ _ := rfl

end OJJudge.Pages
