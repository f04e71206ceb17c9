import OJJudge.Server.Neighbours

/-! What the machine of a pair says of the whole server.  With ordinary names, every run of the server
in which nobody uploads the problem is a run of the pair, so that a row `Pass` of the database stands
for a job that matched all answer files of the problem, whatever the other requests of the server do. -/

namespace OJJudge.Server

open Concurrency

/-! ### The events of the pair -/

section Events

variable {user title : String} {requests : Nat → Storage.Request} {t : Nat}
  {thread : Verdict.Thread} {trace : List (Nat × Event effects)} {e : Event effects}

/-- An event of the pair is an event of a request of the pair. -/
theorem mem_pairTrace (h : (thread, e) ∈ pairTrace user title requests trace) :
    ∃ t, (t, e) ∈ trace ∧ member user title requests trace t = some thread := by
  induction trace with
  | nil => cases h
  | cons e' earlier ih =>
    rw [pairTrace] at h
    split at h
    · next thread' hmember =>
      obtain heq | hmem := List.mem_cons.mp h
      · cases heq
        exact ⟨e'.1, List.mem_cons_self .., member_mono hmember⟩
      · obtain ⟨t, hmem, ht⟩ := ih hmem
        exact ⟨t, List.mem_cons_of_mem _ hmem, member_mono ht⟩
    · obtain ⟨t, hmem, ht⟩ := ih h
      exact ⟨t, List.mem_cons_of_mem _ hmem, member_mono ht⟩

theorem own_pairTrace_eq_nil (h : own t trace = []) (hnumber : number thread = t) :
    own thread (pairTrace user title requests trace) = [] := by
  rw [List.eq_nil_iff_forall_not_mem]
  intro e he
  obtain ⟨u, hmem, hu⟩ := mem_pairTrace (mem_own.mp he)
  obtain rfl : u = t := (number_of_member hu).symm.trans hnumber
  rw [← mem_own, h] at hmem
  cases hmem

/-- The events of a request of the pair are its session check and those of its thread. -/
theorem own_pairTrace (h : member user title requests trace t = some thread) :
    ∃ check, grants user check = true ∧
      own t trace = own thread (pairTrace user title requests trace) ++ [check] := by
  induction trace with
  | nil => cases h
  | cons e' earlier ih =>
    obtain ⟨u, e⟩ := e'
    by_cases hu : u = t
    · subst hu
      rw [own_cons_same]
      by_cases hnil : own u earlier = []
      · have hnone : member user title requests earlier u = none := by
          rw [member, entered, hnil]
          rfl
        refine ⟨e, (member_first hnil h).1, ?_⟩
        rw [pairTrace, hnone, hnil, own_pairTrace_eq_nil hnil (number_of_member h)]
        rfl
      · rw [member_cons_later hnil] at h
        obtain ⟨check, hgrants, hown⟩ := ih h
        refine ⟨check, hgrants, ?_⟩
        rw [pairTrace, h, own_cons_same, hown, List.cons_append]
    · rw [member_cons_ne hu] at h
      obtain ⟨check, hgrants, hown⟩ := ih h
      refine ⟨check, hgrants, ?_⟩
      rw [own_cons_ne hu, hown, pairTrace]
      split
      · next thread' hthread' =>
        have hne : thread' ≠ thread := by
          rintro rfl
          exact hu ((number_of_member hthread').symm.trans (number_of_member h))
        rw [own_cons_ne hne]
      · rfl

/-- A request of the pair compares what its thread compares. -/
theorem compareCodes_own (h : member user title requests trace t = some thread) :
    Verdict.compareCodes (own t trace) =
      Verdict.compareCodes (own thread (pairTrace user title requests trace)) := by
  obtain ⟨⟨o, r⟩, hgrants, hown⟩ := own_pairTrace h
  rw [hown, Verdict.compareCodes, List.filterMap_append, Verdict.compareCodes]
  cases o with
  | get key => simp
  | _ => cases hgrants

end Events

/-! ### Runs of the server -/

/-- A submission resets the counter only when every other request that has reset it has returned. -/
def oneAtATime {lib : Library} {mayFail : Op → Bool} (f : String)
    (c : Config (Storage.machine lib mayFail)) (t : Nat) : Prop :=
  (c.prog t).next? = some (.set (sumKey f) "0") →
    ∀ e ∈ c.trace, e.2.op = .set (sumKey f) "0" → e.1 ≠ t → (c.prog e.1).returned

instance {lib : Library} {mayFail : Op → Bool} (f : String) :
    ∀ (c : Config (Storage.machine lib mayFail)) (t : Nat), Decidable (oneAtATime f c t) :=
  fun _ _ => by unfold oneAtATime; infer_instance

/-- The problem has `n` tests: the `test_num` of its row and the number of its rows in `test_cases`
are `n`. -/
structure HasTests (m : Storage.Memory) (title : String) (n : Nat) : Prop where
  test_num : (m.problems_cpp.find? (·.title = title)).map (·.test_num) = some (toString n)
  test_cases : (m.test_cases.filter (·.problem_id = title)).length = n

section Runs

variable {lib : Library} {mayFail : Op → Bool} {user title : String}
  {requests : Nat → Storage.Request} {m : Storage.Memory} {t : Nat} {thread : Verdict.Thread}
  {ok : Config (Storage.machine lib mayFail) → Nat → Prop}
  {c : Config (Storage.machine lib mayFail)} {n : Nat}

theorem HasTests.pairMemory (h : HasTests m title n) :
    (pairMemory user title m none).HasTests title n where
  test_num := by
    obtain ⟨row, hrow, hnum⟩ := Option.map_eq_some_iff.mp h.test_num
    have hrows : (Server.pairMemory user title m none).rows (.selectTestNum title) =
        m.rows (.selectTestNum title) [] := by
      apply pairMemory_rows
      exact rfl
    rw [hrows, Storage.Memory.rows, List.head?_map, List.head?_filter, hrow, Option.map_some, hnum]
  test_cases := by
    have hrows : (Server.pairMemory user title m none).rows (.selectTestCases title) =
        m.rows (.selectTestCases title) [] := by
      apply pairMemory_rows
      exact rfl
    rw [hrows, Storage.Memory.rows, List.length_map, h.test_cases]

/-- Submissions that do not overlap in the server do not overlap in the pair. -/
theorem oneAtATime_pairView (h : oneAtATime (fileName user title) c t)
    (hmember : member user title requests c.trace t = some thread) :
    Verdict.oneAtATime (fileName user title) (pairView user title requests c) thread := by
  rintro hnext ⟨thread', e⟩ he hop hne
  rw [pairView_prog hmember] at hnext
  obtain ⟨u, hmem, hu⟩ := mem_pairTrace he
  rw [pairView_prog hu]
  refine h hnext (u, e) hmem hop ?_
  rintro rfl
  exact hne (Option.some_inj.mp (hu.symm.trans hmember))

/-- A row of `submissions` is there at the start, or a poll has inserted it. -/
theorem insert_of_mem_submissions (h : Reach ok (Storage.start lib mayFail requests m) c)
    {row : Storage.Submission} (hrow : row ∈ c.mem.submissions) :
    row ∈ m.submissions ∨ ∃ p r, (p, ⟨.query (.insertSubmission row.user_id row.problem_id row.result),
      r⟩) ∈ c.trace := by
  refine h.induct (I := fun c : Config (Storage.machine lib mayFail) => row ∈ c.mem.submissions →
    row ∈ m.submissions ∨ ∃ p r, (p, (⟨.query (.insertSubmission row.user_id row.problem_id row.result),
      r⟩ : Event effects)) ∈ c.trace) .inl ?_ hrow
  intro c t x o k r m' _ ih _ _ hexec hrow
  have hold : row ∈ c.mem.submissions → row ∈ m.submissions ∨ ∃ p r',
      (p, (⟨.query (.insertSubmission row.user_id row.problem_id row.result), r'⟩ : Event effects)) ∈
        (c.after t o r k m').trace := by
    intro hrow
    obtain hstart | ⟨p, r', hmem⟩ := ih hrow
    · exact .inl hstart
    · exact .inr ⟨p, r', List.mem_cons_of_mem _ hmem⟩
  rw [Config.mem_after] at hrow
  obtain hm | hm := Storage.mem_of_exec hexec
  · exact hold (hm ▸ hrow)
  · rw [hm] at hrow
    cases o with
    | query stmt =>
      cases stmt with
      | insertSubmission user_id problem_id result =>
        obtain hrow | hrow := List.mem_append.mp hrow
        · exact hold hrow
        · obtain rfl := List.mem_singleton.mp hrow
          exact .inr ⟨t, r, List.mem_cons_self ..⟩
      | _ => exact hold hrow
    | _ => exact hold hrow

/-- The server is a refinement of the machine of each pair: with ordinary names, no upload of the
problem, no session left over and storage and releases of the mutex that work, every run of all requests
is a run of the submissions and the polls of the pair, as its keys, its rows and the mutex show it. -/
theorem server_refines_pair (lib : Library) (mayFail : Op → Bool) (user title : String)
    (requests : Nat → Storage.Request) (m : Storage.Memory) (huser : user ≠ "")
    (hnames : OrdinaryNames lib user title requests m) (huploads : NotUploaded title requests)
    (hsessions : ∀ key, Storage.IsSession key → m.redis key = none)
    (hsafe : ∀ o, Stored user title o → mayFail o = false) (hlock : m.lock = none)
    {c : Config (Storage.machine lib mayFail)}
    (h : Reach anyOrder (Storage.start lib mayFail requests m) c)
    (hunlock : ∀ t code, (t, ⟨.unlock, code⟩) ∈ c.trace → code = 0) :
    Reach anyOrder (Verdict.start user title (fun t => (requests t).req.body)
      (pairMemory user title m none)) (pairView user title requests c) :=
  reach_pairView huser hsafe hlock h (fun _ t hr _ => hnames.keepsApart huploads hsessions hr t)
    (fun _ _ _ _ _ _ => trivial) hunlock

/-- With ordinary names, no upload of the problem, no session and no sum left over and storage that
works, a row `Pass` that the server has inserted comes after a submission of its user to its problem
that matched all answer files, when the submissions of the pair do not overlap. -/
theorem pass_rows_are_earned (lib : Library) (mayFail : Op → Bool) (user title : String)
    (requests : Nat → Storage.Request) (m : Storage.Memory) (n : Nat) (huser : user ≠ "")
    (hnames : OrdinaryNames lib user title requests m) (huploads : NotUploaded title requests)
    (hsessions : ∀ key, Storage.IsSession key → m.redis key = none)
    (hsafe : ∀ o, Stored user title o → mayFail o = false) (hlock : m.lock = none) (hn : 0 < n)
    (htests : HasTests m title n) (hsum : m.redis (sumKey (fileName user title)) = none)
    {c : Config (Storage.machine lib mayFail)}
    (h : Reach (oneAtATime (fileName user title)) (Storage.start lib mayFail requests m) c)
    (hunlock : ∀ t code, (t, ⟨.unlock, code⟩) ∈ c.trace → code = 0)
    (hrow : ⟨user, title, "Pass"⟩ ∈ c.mem.submissions)
    (hnew : ⟨user, title, "Pass"⟩ ∉ m.submissions) :
    ∃ p r later earlier t,
      c.trace = later ++ (p, ⟨.query (.insertSubmission user title "Pass"), r⟩) :: earlier ∧
      member user title requests earlier t = some (.submission t) ∧
      Verdict.compareCodes (own t earlier) = List.replicate n 1 := by
  obtain ⟨p, r, hmem⟩ := (insert_of_mem_submissions h hrow).resolve_left hnew
  obtain ⟨later, earlier, htrace⟩ := List.append_of_mem hmem
  obtain ⟨c₀, k, x, m', h₀, rfl, hp, hok, hexec⟩ := h.past rfl htrace
  -- Only a poll of the pair inserts the row.
  obtain ⟨thread, hmember⟩ : ∃ thread, member user title requests c₀.trace p = some thread := by
    rw [← Option.ne_none_iff_exists']
    intro hnone
    have hapart : Apart user title (.query (.insertSubmission user title "Pass")) :=
      hnames.keepsApart huploads hsessions h₀ p hnone _ (by rw [hp, Prog.next?_op])
    exact hapart ⟨rfl, rfl⟩
  have hview := reach_pairView huser hsafe hlock (h₀.next hok hp hexec)
    (fun _ t hr _ => hnames.keepsApart huploads hsessions hr t)
    (fun _ _ _ _ hone hthread => oneAtATime_pairView hone hthread) fun t code hcode => by
      refine hunlock t code ?_
      rw [htrace]
      exact List.mem_append_right _ hcode
  have htrace' : (pairView user title requests (c₀.after p _ r k m')).trace =
      (thread, ⟨_, r⟩) :: pairTrace user title requests c₀.trace := by
    show pairTrace user title requests (_ :: c₀.trace) = _
    rw [pairTrace, hmember]
  obtain ⟨⟨rfl, -⟩ | ⟨rfl, -⟩, -⟩ := pairThread_cases (pairThread_of_member hmember)
  · have hop := Verdict.thread_op hview (t := .submission p)
      (e := ⟨.query (.insertSubmission user title "Pass"), r⟩) (by
        rw [htrace']
        exact List.mem_cons_self ..)
    exact hop.elim
  · obtain ⟨j, hj⟩ := Verdict.matched_of_insert (k := p) (r := r) hn htests.pairMemory (by
        rw [pairMemory_redis (sumKey_mem_keysOf _), hsum]
        simp) (Verdict.countedAlone_of_oneAtATime htests.pairMemory hview) (by
        rw [htrace']
        exact List.mem_cons_self ..)
    rw [htrace', own_cons_ne (by simp)] at hj
    have hne : own (.submission j) (pairTrace user title requests c₀.trace) ≠ [] := by
      intro hnil
      rw [hnil] at hj
      have hlen := congrArg List.length hj
      simp only [Verdict.compareCodes, List.filterMap_nil, List.length_nil,
        List.length_replicate] at hlen
      omega
    obtain ⟨e, he⟩ := List.exists_mem_of_ne_nil _ hne
    obtain ⟨t, -, ht⟩ := mem_pairTrace (mem_own.mp he)
    obtain rfl : j = t := number_of_member ht
    exact ⟨p, r, later, c₀.trace, j, htrace, ht, (compareCodes_own ht).trans hj⟩

end Runs

/-! ### A run -/

/-- The files of the server can fail. -/
def fileFaults : Op → Bool
  | .openFile _ | .write _ _ => true
  | _ => false

theorem fileFaults_stored {user title : String} (o : Op) (ho : Stored user title o) :
    fileFaults o = false := by
  cases o with
  | openFile _ | write _ _ => exact ho.elim
  | _ => rfl

/-- Alice has an account, and there is a problem with one test. -/
def Memory.noSession : Storage.Memory :=
  { Storage.Memory.account "alice" "student" with
    problems_cpp := [⟨1, "p", "easy", "1000", "64", "bob", "1", "1"⟩]
    test_cases := [⟨"p", "p_input_0.txt", "p_output_0.txt"⟩] }

/-- Alice logs in at midnight, submits and polls. -/
def loginSubmitPoll (t : Nat) : Storage.Request :=
  if t = 0 then ⟨.userLogin, .sample "/login" "" "username=alice&password=secret"⟩
  else if t = 1 then ⟨.runCpp, .sample "/solve?porblem_title=p"
    "token=d9605bd19536a1cda03dd932dd182f7f00_0_00_0_00" "int main(){}"⟩
  else ⟨.runState, .sample "/state?porblem_title=p"
    "token=d9605bd19536a1cda03dd932dd182f7f00_0_00_0_00" ""⟩

theorem loginSubmitPoll_checksRole (t : Nat) :
    ¬Storage.ChecksRole (loginSubmitPoll t).handler = true := by
  unfold loginSubmitPoll
  split
  · exact Bool.false_ne_true
  · split <;> exact Bool.false_ne_true

theorem notUploaded_loginSubmitPoll : NotUploaded "p" loginSubmitPoll := fun t ht =>
  absurd ht (loginSubmitPoll_checksRole t)

theorem ordinaryNames_loginSubmitPoll :
    OrdinaryNames .sample "alice" "p" loginSubmitPoll Memory.noSession where
  user_plain := by decide
  title_plain := by decide
  accounts := by decide
  registered t ht := by
    unfold loginSubmitPoll at ht
    split at ht
    · cases ht
    · split at ht <;> cases ht
  titles t := by
    unfold loginSubmitPoll
    split
    · decide +kernel
    · split
      · decide +kernel
      · decide +kernel
  ids t ht := absurd ht (loginSubmitPoll_checksRole t)

/-- The codes of the releases of the mutex. -/
def unlockCodes (trace : List (Nat × Event effects)) : List Int32 :=
  trace.filterMap fun
    | (_, ⟨.unlock, code⟩) => some code
    | _ => none

theorem mem_unlockCodes {trace : List (Nat × Event effects)} {t : Nat} {code : Int32}
    (h : (t, ⟨.unlock, code⟩) ∈ trace) : code ∈ unlockCodes trace :=
  List.mem_filterMap.mpr ⟨_, h, rfl⟩

theorem server_refines_pair_loginSubmitPoll :
    ∃ c, Reach anyOrder (Storage.start .sample fileFaults loginSubmitPoll Memory.noSession) c ∧
      c.mem.submissions = [⟨"alice", "p", "Pass"⟩] ∧
      Reach anyOrder (Verdict.start "alice" "p" (fun t => (loginSubmitPoll t).req.body)
        (pairMemory "alice" "p" Memory.noSession none)) (pairView "alice" "p" loginSubmitPoll c) := by
  obtain ⟨c, hc, hv⟩ := Config.exists_reach anyOrder
    (Storage.start .sample fileFaults loginSubmitPoll Memory.noSession)
    (List.replicate 11 (0, .quiet) ++ List.replicate 28 (1, .quiet) ++ List.replicate 7 (2, .quiet))
    (fun c => (c.mem.submissions, unlockCodes c.trace)) ([⟨"alice", "p", "Pass"⟩], [0])
    (by decide +kernel)
  obtain ⟨hrows, hcodes⟩ := Prod.mk.injEq .. ▸ hv
  refine ⟨c, hc, hrows, server_refines_pair .sample fileFaults "alice" "p" loginSubmitPoll
    Memory.noSession (by decide) ordinaryNames_loginSubmitPoll notUploaded_loginSubmitPoll
    (fun _ _ => rfl) fileFaults_stored rfl hc fun t code hmem => ?_⟩
  simpa [hcodes] using mem_unlockCodes hmem

theorem pass_rows_are_earned_loginSubmitPoll :
    ∃ c, Reach (oneAtATime (fileName "alice" "p"))
        (Storage.start .sample fileFaults loginSubmitPoll Memory.noSession) c ∧
      ∃ p r later earlier t, c.trace =
        later ++ (p, ⟨.query (.insertSubmission "alice" "p" "Pass"), r⟩) :: earlier ∧
        member "alice" "p" loginSubmitPoll earlier t = some (.submission t) ∧
        Verdict.compareCodes (own t earlier) = List.replicate 1 1 := by
  obtain ⟨c, hc, hv⟩ := Config.exists_reach (oneAtATime (fileName "alice" "p"))
    (Storage.start .sample fileFaults loginSubmitPoll Memory.noSession)
    (List.replicate 11 (0, .quiet) ++ List.replicate 28 (1, .quiet) ++ List.replicate 7 (2, .quiet))
    (fun c => (c.mem.submissions, unlockCodes c.trace)) ([⟨"alice", "p", "Pass"⟩], [0])
    (by decide +kernel)
  obtain ⟨hrows, hcodes⟩ := Prod.mk.injEq .. ▸ hv
  refine ⟨c, hc, pass_rows_are_earned .sample fileFaults "alice" "p" loginSubmitPoll
    Memory.noSession 1 (by decide) ordinaryNames_loginSubmitPoll notUploaded_loginSubmitPoll
    (fun _ _ => rfl) fileFaults_stored rfl Nat.one_pos
    ⟨by decide, by decide⟩ rfl hc (fun t code hmem => ?_) (by simp [hrows])
    (by simp [Memory.noSession, Storage.Memory.account, Storage.Memory.empty])⟩
  simpa [hcodes] using mem_unlockCodes hmem

end OJJudge.Server
