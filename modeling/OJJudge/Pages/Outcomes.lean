import OJJudge.Pages.Uploading

/-! Uploads next to all other clients.  An upload that nobody else writes the problem of runs as it does
alone, whatever the others do between its operations. -/

namespace OJJudge.Pages

open Concurrency Storage

/-! ### Outcomes -/

/-- A dialog in which everything has been filled in and no value holds a separator, and who uploads
it. -/
structure Dialog where
  errand : Errand
  wire : Wire
  form : QuestionsForm
  runs : errand.Runs wire form.problem_id
  unset : wire.unset = "200"
  complete : form.Complete
  sendable : form.Sendable

def Dialog.client (dialog : Dialog) : Client := .page dialog.wire (uploadQuestions dialog.form)

/-- The counter does not say that tests have been uploaded. -/
def Desk.Fresh (s : Desk) : Prop := s.counter = none ∨ s.counter = some "0"

/-- What the dialog shows in the end, and what it leaves of the problem: one that exists loses its
tests, and a new one is accepted exactly when its counter is fresh. -/
structure Dialog.Outcome (dialog : Dialog) (s s' : Desk) : Prop where
  counter : s'.counter = none
  registered : s.problems ≠ [] →
    s'.text = "部分题目已存在" ∧ s'.problems = s.problems ∧ s'.cases = []
  accepted : s.problems = [] → s.Fresh → s'.text = "上传成功" ∧
    s'.problems = [(dialog.errand.user, dialog.form.problemParams)] ∧
    s'.cases = s.cases ++ newCases dialog.errand.problem_id 0 dialog.form.inputFiles.length
  lacking : s.problems = [] → ¬s.Fresh → s'.text = "测试用例数量与test_num不匹配" ∧
    s'.problems = [] ∧ s'.cases = []

theorem Errand.Leaves.session {errand : Errand} {form : QuestionsForm} {s s' : Desk}
    (h : errand.Leaves form s s') : s'.session = s.session := by
  obtain ⟨marker, rfl⟩ := h
  show (Desk.register _ _ _).2.session = s.session
  unfold Desk.register
  split
  · rfl
  · split <;> rfl

theorem Dialog.outcome (dialog : Dialog) {s s' : Desk}
    (h : dialog.errand.Leaves dialog.form s s') : dialog.Outcome s s' := by
  obtain ⟨marker, rfl⟩ := h
  have hcount :=
    incrValue_iterate_eq (List.length_pos_iff.mpr dialog.complete.inputFiles) s.counter
  by_cases hregistered : s.problems = []
  swap
  · have hupload : s.upload dialog.errand.user dialog.form = _ := register_registered hregistered
    rw [hupload]
    exact ⟨rfl, fun _ => ⟨rfl, rfl, rfl⟩, fun h => absurd h hregistered,
      fun h => absurd h hregistered⟩
  · by_cases hfresh : s.Fresh
    · have hupload : s.upload dialog.errand.user dialog.form = _ :=
        register_accepted hregistered (hcount.mpr hfresh)
      rw [hupload]
      refine ⟨rfl, fun h => absurd hregistered h, fun _ _ => ⟨rfl, ?_, ?_⟩,
        fun _ h => absurd hfresh h⟩
      · simp [Desk.uploaded, hregistered]
      · rw [dialog.runs.problem_id]
        rfl
    · have hupload : s.upload dialog.errand.user dialog.form = _ :=
        register_lacking hregistered fun h => hfresh (hcount.mp h)
      rw [hupload]
      exact ⟨rfl, fun h => absurd hregistered h, fun _ h => absurd h hfresh,
        fun _ _ => ⟨rfl, hregistered, rfl⟩⟩

/-! ### Runs -/

section Runs

variable {errand : Errand} {lib : Library} {mayFail : Op → Bool}
  {ok : Config (machine lib mayFail) → Nat → Prop} {init c : Config (machine lib mayFail)} {t : Nat}

/-- The desk of a client in a configuration. -/
def Errand.at (errand : Errand) (t : Nat) (c : Config (machine lib mayFail)) : Desk :=
  errand.desk c.mem.store (c.mem.text t)

/-- A staff user is logged in, the storage works for the upload, and the other clients that move
leave its desk alone. -/
structure Errand.Undisturbed (errand : Errand) (ok : Config (machine lib mayFail) → Nat → Prop)
    (t : Nat) (init : Config (machine lib mayFail)) : Prop where
  session : init.mem.store.redis errand.sessionKey = some errand.user
  staff : init.mem.store.tables.isStaff errand.user = true
  works : ∀ o, errand.Concerns o → mayFail o = false
  others : ∀ u, u ≠ t → (∃ c, ok c u) → (init.prog u).Only errand.Elsewhere

theorem isStaff_of_run {user : String} (h : Reach ok init c)
    (hstaff : init.mem.store.tables.isStaff user = true) :
    c.mem.store.tables.isStaff user = true := by
  refine h.induct (I := fun c : Config (machine lib mayFail) =>
    c.mem.store.tables.isStaff user = true) hstaff ?_
  intro c u x o k r m _ ih _ _ hexec
  exact Errand.isStaff_of_exec hexec ih

theorem elsewhere_of_run (hothers : ∀ u, u ≠ t → (∃ c, ok c u) → (init.prog u).Only errand.Elsewhere)
    (h : Reach ok init c) {u : Nat} (hu : u ≠ t) (hmoves : ∃ c, ok c u) :
    (c.prog u).Only errand.Elsewhere := by
  refine (h.only (K := fun v o => v ≠ t → (∃ c, ok c v) → errand.Elsewhere o) ?_ u).mono
    fun o ho => ho hu hmoves
  intro v
  by_cases hv : v ≠ t ∧ ∃ c, ok c v
  · exact (hothers v hv.1 hv.2).mono fun o ho _ _ => ho
  · exact .of_forall (fun o hne hmoves => absurd ⟨hne, hmoves⟩ hv) _

/-- The run lemma: what a client reaches from its desk, it reaches next to all others. -/
theorem reaches_of_run {R : Unit → Desk → Prop} (hquiet : errand.Undisturbed ok t init)
    (h : Reach ok init c) (hstart : errand.Reaches (init.prog t) R (errand.at t init)) :
    errand.Reaches (c.prog t) R (errand.at t c) := by
  refine h.wp (errand.at t) t hstart ?_ ?_
  · intro c x o k r m hr _ _ hexec
    exact Errand.acts_of_exec hquiet.works (isStaff_of_run hr hquiet.staff) hexec
  · intro c u x o k r m hu hr hok hprog hexec
    have honly := elsewhere_of_run hquiet.others hr hu ⟨c, hok⟩
    rw [hprog] at honly
    exact Errand.desk_of_exec hu honly.1 hexec

variable {dialog : Dialog}

/-- The desk after the whole upload, next to all other clients. -/
theorem leaves_of_run (hquiet : dialog.errand.Undisturbed ok t init)
    (hpage : init.prog t = dialog.client.prog lib) (h : Reach ok init c)
    (hdone : (c.prog t).returned = true) :
    dialog.errand.Leaves dialog.form (dialog.errand.at t init) (dialog.errand.at t c) := by
  have hstart : dialog.errand.Reaches (init.prog t)
      (fun _ s' => dialog.errand.Leaves dialog.form (dialog.errand.at t init) s')
      (dialog.errand.at t init) := by
    rw [hpage]
    exact reaches_uploadQuestions dialog.runs dialog.unset dialog.complete dialog.sendable
      hquiet.session
  have hreaches := reaches_of_run hquiet h hstart
  cases hprog : c.prog t with
  | ret a =>
    rw [hprog] at hreaches
    exact hreaches
  | op o k =>
    rw [hprog] at hdone
    cases hdone

end Runs

/-! ### Other clients -/

theorem onServer_only {errand : Errand} {α : Type} {p : Code α}
    (hp : p.Only fun o => errand.Elsewhere (.server o)) : (onServer p).Only errand.Elsewhere := by
  refine hp.calls fun o ho => ?_
  exact ⟨ho, fun _ => trivial⟩

/-- A request for the list of problems only reads. -/
theorem get_problem_list_elsewhere (errand : Errand) (req : HttpReq) :
    (Judge.get_problem_list req).Only fun o => errand.Elsewhere (.server o) := by
  refine withParams_only fun _ _ => session_only (fun _ => trivial) id fun _ => ?_
  refine (get_problem_list_only _).mono fun o ho => ?_
  cases ho <;> exact id

theorem listRequest_elsewhere (errand : Errand) (lib : Library) (req : HttpReq) :
    ((Client.request ⟨.get_problem_list, req⟩).prog lib).Only errand.Elsewhere :=
  onServer_only (get_problem_list_elsewhere errand req)

/-! ### Runs on fixed dialogs -/

/-- A dialog with one test. -/
def QuestionsForm.sample : QuestionsForm where
  inputFiles := [bytes "1"]
  outputFiles := [bytes "2"]
  problem_id := bytes "p"
  problem_kind := bytes "cpp"
  problem_diffculty := bytes "easy"
  time_limit := some 1000
  mem_limit := none
  authre_id := bytes "T"
  is_public := bytes "1"
  questionsFile := some ⟨3, bytes "sum"⟩

def Wire.sample : Wire := ⟨[("Cookie", bytes "token=t")], 0, "200"⟩

def Errand.sample : Errand where
  user := "T"
  problem_id := "p"
  sessionKey := "OJ:t"
  sessionKey_ne_counterKey := by decide
  sessionKey_ne_inCaseName case_id h := by
    have hhead := congrArg (fun s : String => s.toList.head?) h
    simp [inCaseName] at hhead

/-- The teacher is logged in, and a test of the problem has been counted without a row. -/
def Memory.sample : Memory where
  store := { Storage.Memory.account "T" "teacher" with
    redis := fun key =>
      if key = "OJ:t" then some "T" else if key = "p_total_case_num" then some "1" else none }
  text _ := ""

theorem complete_sample : QuestionsForm.sample.Complete :=
  ⟨by decide, rfl, by decide, by decide, by decide, by decide, _, rfl, by decide⟩

theorem sendable_sample : QuestionsForm.sample.Sendable := by
  refine ⟨?_, ?_, ?_⟩
  · decide +kernel
  · intro i hi
    obtain rfl : i = 0 := by simpa [QuestionsForm.sample] using hi
    decide +kernel
  · decide +kernel

theorem runs_sample : Errand.sample.Runs .sample QuestionsForm.sample.problem_id :=
  ⟨by decide, by decide +kernel, by decide⟩

def Dialog.sample : Dialog :=
  ⟨.sample, .sample, .sample, runs_sample, rfl, complete_sample, sendable_sample⟩

/-- Two uploads of the problem; the others ask for the list of problems. -/
def Client.samples (t : Nat) : Client :=
  if t ≤ 1 then Dialog.sample.client
  else .request ⟨.get_problem_list, .sample "/problem/get_problem_list?beginID=1" "token=t" ""⟩

def samples : Config (machine .sample fun _ => false) := start .sample _ Client.samples .sample

theorem prog_samples {t : Nat} (ht : t ≤ 1) :
    samples.prog t = Dialog.sample.client.prog .sample := by
  show (Client.samples t).prog _ = _
  rw [Client.samples, if_pos ht]

/-- The counter that is left over. -/
theorem not_fresh_sample : ¬(Dialog.sample.errand.at 0 samples).Fresh := by
  rintro (h | h)
  · cases h
  · exact absurd (Option.some_inj.mp h) (by decide)

theorem undisturbed_sample : Dialog.sample.errand.Undisturbed (fun _ u => u ≠ 1) 0 samples where
  session := rfl
  staff := by decide
  works _ _ := rfl
  others u hu hmoves := by
    obtain ⟨-, hmoves⟩ := hmoves
    have hlist : Client.samples u =
        .request ⟨.get_problem_list, .sample "/problem/get_problem_list?beginID=1" "token=t" ""⟩ :=
      if_neg (by omega)
    have hprog : samples.prog u = (Client.samples u).prog .sample := rfl
    rw [hprog, hlist]
    exact listRequest_elsewhere _ _ _

end OJJudge.Pages
