import OJJudge.Storage.Machine

/-! Requests without privilege.  A request whose session check fails has no effect, and a request of
a student to one of the three uploading handlers changes no store. -/

namespace OJJudge.Storage

open Concurrency

/-- The operation writes no file, queues no SQL statement and no job, and issues no Redis write. -/
def Harmless : Op → Bool
  | .set _ _ | .incr _ | .expire _ _ | .del _ | .query _ | .openFile _ | .write _ _ | .push _
  | .spawn _ => false
  | _ => true

def Selects : Stmt → Bool
  | .selectProblemId _ | .selectExisting _ | .selectTestCases _ | .selectTestNum _ | .selectRole _
  | .selectProblems _ | .selectLogin _ _ => true
  | _ => false

/-- The operation changes no store. -/
def ReadOnly : Op → Bool
  | .query stmt => Selects stmt
  | o => Harmless o

/-- The stores that two memories share. -/
structure SameStores (m m' : Memory) : Prop where
  redis : m'.redis = m.redis
  problems_cpp : m'.problems_cpp = m.problems_cpp
  test_cases : m'.test_cases = m.test_cases
  files : m'.files = m.files

theorem SameStores.refl (m : Memory) : SameStores m m := ⟨rfl, rfl, rfl, rfl⟩

theorem ReadOnly.sameStores {o : Op} (h : ReadOnly o = true) (m : Memory) (lib : Library) (t : Nat)
    (files : String → Option Bytes) : SameStores m (m.after lib t files o) := by
  cases o with
  | query stmt => cases stmt <;> first | exact .refl m | cases h
  | set | incr | expire | del | openFile | write | push | spawn => cases h
  | _ => exact ⟨rfl, rfl, rfl, rfl⟩

section Session

variable {req : HttpReq}

/-- Every look-up of the request's session key has found no user. -/
def Refused (req : HttpReq) (h : List (Event effects)) : Prop :=
  ∀ key v, req.sessionKey? = some key → (⟨.get key, v⟩ : Event effects) ∈ h → v.getD "" = ""

/-- A refused request runs harmless operations only. -/
def RefusedIsHarmless (req : HttpReq) (h : List (Event effects)) (o : Op) : Prop :=
  Refused req h → Harmless o = true

/-- Nothing is asked once a look-up has found a user. -/
theorem wp_not_refused {key : String} {v : Option String} {h : List (Event effects)}
    (hkey : req.sessionKey? = some key) (hv : ¬v.getD "" = "")
    (hget : (⟨.get key, v⟩ : Event effects) ∈ h) (p : Code Unit) :
    p.Wp (Records fun _ _ => True) (RefusedIsHarmless req) (fun _ _ => True) h := by
  refine Prog.wp_of_past (I := fun h => (⟨.get key, v⟩ : Event effects) ∈ h)
    (fun _ _ => List.mem_cons_of_mem _) ?_ p hget
  intro h o he hrefused
  exact absurd (hrefused key v hkey he) hv

theorem session_refused (next : String → Code Unit) (h : List (Event effects)) :
    (session req next).Wp (Records fun _ _ => True) (RefusedIsHarmless req) (fun _ _ => True) h := by
  unfold session
  split
  · trivial
  · next key hkey =>
    refine ⟨fun _ => rfl, ?_⟩
    rintro v _ ⟨-, rfl⟩
    simp only [Prog.bind_eq, Prog.ret_bind, Prog.pure_eq]
    split
    · exact ⟨fun _ => rfl, fun _ _ _ => trivial⟩
    · next hv => exact wp_not_refused hkey hv (List.mem_cons_self ..) _

theorem withParams_refused (next : (String → String) → String → Code Unit)
    (h : List (Event effects)) :
    (withParams req fun KVpairs => session req (next KVpairs)).Wp (Records fun _ _ => True)
      (RefusedIsHarmless req) (fun _ _ => True) h := by
  unfold withParams
  split
  · trivial
  · exact session_refused _ h

theorem userRegist_refused (lib : Library) (h : List (Event effects)) :
    (UserInfo.userRegist lib req).Wp (Records fun _ _ => True) (RefusedIsHarmless req)
      (fun _ _ => True) h := by
  refine ⟨fun _ => rfl, fun _ _ _ => ⟨fun _ => rfl, fun _ _ _ => ⟨fun _ => rfl, fun _ _ _ =>
    ⟨fun _ => rfl, fun _ s _ => ?_⟩⟩⟩⟩
  simp only [Prog.bind_eq, Prog.ret_bind, Prog.pure_eq]
  split
  · trivial
  · next key hkey =>
    refine ⟨fun _ => rfl, ?_⟩
    rintro v _ ⟨-, rfl⟩
    by_cases hv : v.getD "" = ""
    · simp only [Prog.bind_eq, Prog.ret_bind, Prog.pure_eq, hv]
      exact ⟨fun _ => rfl, fun _ _ _ => trivial⟩
    · exact wp_not_refused hkey hv (List.mem_cons_self ..) _

theorem request_refused (lib : Library) {request : Request} (h : request.handler ≠ .userLogin) :
    (request.prog lib).Wp (Records fun _ _ => True) (RefusedIsHarmless request.req)
      (fun _ _ => True) [] := by
  by_cases hregist : request.handler = .userRegist
  · rw [Request.prog, hregist]
    exact userRegist_refused lib []
  · obtain ⟨next, hnext⟩ := request.prog_eq_session lib hregist h
    rw [hnext]
    exact withParams_refused next []

/-- Every role that the request has looked up for its session's user is that of a student. -/
def Denied (req : HttpReq) (h : List (Event effects)) : Prop :=
  ∀ key user_name rows, req.sessionKey? = some key →
    (⟨.get key, some user_name⟩ : Event effects) ∈ h →
    (⟨.query (.selectRole user_name), rows⟩ : Event effects) ∈ h →
    ∀ role cells rest, rows = (role :: cells) :: rest → role = "student"

/-- A denied request changes no store. -/
def DeniedReadsOnly (req : HttpReq) (h : List (Event effects)) (o : Op) : Prop :=
  Denied req h → ReadOnly o = true

theorem checkRole_denied {key user_name : String} (next : Code Unit)
    {h : List (Event effects)} (hkey : req.sessionKey? = some key)
    (hget : (⟨.get key, some user_name⟩ : Event effects) ∈ h) :
    (checkRole user_name next).Wp (Records fun _ _ => True) (DeniedReadsOnly req)
      (fun _ _ => True) h := by
  refine ⟨fun _ => rfl, ?_⟩
  rintro rows _ ⟨-, rfl⟩
  simp only [Prog.bind_eq, Prog.ret_bind]
  split
  · next role cells rest =>
    split
    · exact ⟨fun _ => rfl, fun _ _ _ => trivial⟩
    · next hrole =>
      refine Prog.wp_of_past (I := fun h => (⟨.get key, some user_name⟩ : Event effects) ∈ h ∧
        (⟨Op.query (.selectRole user_name), (role :: cells) :: rest⟩ : Event effects) ∈ h) ?_ ?_ _
        ⟨List.mem_cons_of_mem _ hget, List.mem_cons_self ..⟩
      · exact fun _ _ h => ⟨List.mem_cons_of_mem _ h.1, List.mem_cons_of_mem _ h.2⟩
      · intro h o hpast hdenied
        exact absurd (hdenied key user_name _ hkey hpast.1 hpast.2 role cells rest rfl) hrole
  · exact ⟨fun _ => rfl, fun _ _ _ => trivial⟩

theorem session_denied (next : String → Code Unit) (h : List (Event effects)) :
    (session req fun user_name => checkRole user_name (next user_name)).Wp
      (Records fun _ _ => True) (DeniedReadsOnly req) (fun _ _ => True) h := by
  unfold session
  split
  · trivial
  · next key hkey =>
    refine ⟨fun _ => rfl, ?_⟩
    rintro v _ ⟨-, rfl⟩
    simp only [Prog.bind_eq, Prog.ret_bind, Prog.pure_eq]
    split
    · exact ⟨fun _ => rfl, fun _ _ _ => trivial⟩
    · next hv =>
      cases v with
      | none => exact absurd rfl hv
      | some user_name => exact checkRole_denied _ hkey (List.mem_cons_self ..)

/-- The handlers that look up the role of the session's user. -/
def ChecksRole : Handler → Bool
  | .add_problem | .add_test_in | .add_test_out => true
  | _ => false

theorem request_denied (lib : Library) {request : Request}
    (h : ChecksRole request.handler = true) :
    (request.prog lib).Wp (Records fun _ _ => True) (DeniedReadsOnly request.req)
      (fun _ _ => True) [] := by
  obtain ⟨handler, req⟩ := request
  have hparams : ∀ next : (String → String) → String → Code Unit,
      (withParams req fun KVpairs => session req fun user_name =>
        checkRole user_name (next KVpairs user_name)).Wp (Records fun _ _ => True)
          (DeniedReadsOnly req) (fun _ _ => True) [] := by
    intro next
    unfold withParams
    split
    · trivial
    · exact session_denied _ _
  unfold Request.prog
  cases handler with
  | add_problem =>
    unfold Judge.add_problem OJJudge.add_problem
    exact hparams _
  | add_test_in =>
    unfold Judge.add_test_in OJJudge.add_test_in
    exact hparams _
  | add_test_out =>
    unfold Judge.add_test_out OJJudge.add_test_out
    exact hparams _
  | _ => cases h

end Session

/-! ### Runs -/

section Runs

variable {lib : Library} {mayFail : Op → Bool} {ok : Config (machine lib mayFail) → Nat → Prop}
  {requests : Nat → Request} {m₀ : Memory} {c : Config (machine lib mayFail)}

/-- Accounts are only added, so a role stays. -/
theorem role_after {m : Memory} {username role : String} (h : m.role username = some role)
    (t : Nat) (files : String → Option Bytes) (o : Op) :
    (m.after lib t files o).role username = some role := by
  cases o with
  | query stmt =>
    cases stmt with
    | insertUser =>
      obtain ⟨row, hrow, hrole⟩ := Option.map_eq_some_iff.mp h
      show (List.find? _ (m.user_table ++ _)).map _ = _
      rw [List.find?_append, hrow]
      simpa using hrole
    | _ => exact h
  | _ => exact h

theorem role_of_rows {m : Memory} {username role : String} {cells : List String}
    {rest : List (List String)} (page : List (List String))
    (h : m.rows (.selectRole username) page = (role :: cells) :: rest) :
    m.role username = some role := by
  unfold Memory.role
  rw [← List.head?_filter]
  simp only [Memory.rows] at h
  cases hrows : m.user_table.filter (·.username = username) with
  | nil =>
    rw [hrows] at h
    cases h
  | cons row rows =>
    rw [hrows] at h
    cases h
    rfl

/-- A role that was looked up is still the role of the user. -/
theorem role_of_lookup (h : Reach ok (start lib mayFail requests m₀) c) {t : Nat}
    {username role : String} {cells : List String} {rest : List (List String)}
    (he : (t, ⟨Op.query (.selectRole username), (role :: cells) :: rest⟩) ∈ c.trace) :
    c.mem.role username = some role := by
  refine h.induct (I := fun c : Config (machine lib mayFail) => ∀ t role cells rest,
    (t, (⟨Op.query (.selectRole username), (role :: cells) :: rest⟩ : Event effects)) ∈ c.trace →
      c.mem.role username = some role) ?_ ?_ t role cells rest he
  · intro t role cells rest he
    cases he
  · intro c u x o k r m _ ih _ _ hx t role cells rest he
    obtain heq | hold := List.mem_cons.mp he
    · cases heq
      have hquery : exec lib mayFail u (.query (.selectRole username)) x c.mem =
        some ((role :: cells) :: rest, m) := hx
      obtain ⟨-, hr, -⟩ | ⟨hr, rfl⟩ := exec_cases hquery
      · cases hr
      · exact role_of_rows (x.answer (.query (.selectRole username))) hr.symm
    · obtain hm | hm := mem_of_exec hx
      · rw [Config.mem_after, hm]
        exact ih t role cells rest hold
      · rw [Config.mem_after, hm]
        exact role_after (ih t role cells rest hold) u x.files o

/-- A request of any handler but `userLogin` whose token is unbound writes no file, queues no
statement and issues no Redis write; and a request to `add_problem`, `add_test_in` or `add_test_out`
whose session's user is a student leaves every store as it is. -/
theorem no_unprivileged_effect (lib : Library) (requests : Nat → Request) (m : Memory)
    {c : Config (machine lib anyFault)}
    (h : Reach anyOrder (start lib anyFault requests m) c) (t : Nat) :
    ((requests t).handler ≠ .userLogin → Refused (requests t).req (own t c.trace) →
      ∀ e ∈ own t c.trace, Harmless e.op = true) ∧
    (ChecksRole (requests t).handler = true →
      (∀ key user_name, (requests t).req.sessionKey? = some key →
        (⟨.get key, some user_name⟩ : Event effects) ∈ own t c.trace →
        c.mem.role user_name = some "student") →
      ∀ x c', c.step t x = some c' → SameStores c.mem c'.mem) := by
  constructor
  · intro hhandler hrefused e he
    obtain ⟨later, earlier, htrace⟩ := List.append_of_mem he
    refine h.own_events t rfl (request_refused lib hhandler) (fun _ _ _ _ _ _ _ _ _ => trivial)
      htrace fun key v hkey hget => hrefused key v hkey ?_
    rw [htrace]
    exact List.mem_append_right _ (List.mem_cons_of_mem _ hget)
  · intro hhandler hstudent x c' hstep
    obtain ⟨o, k, r, m', hp, hx, rfl⟩ := Config.step_eq_some.mp hstep
    have hwp := h.history_op t rfl (request_denied lib hhandler) fun _ _ _ _ _ _ _ _ _ => trivial
    rw [hp] at hwp
    have hread : ReadOnly o = true := by
      refine hwp.1 fun key user_name rows hkey hget hrole role cells rest hrows => ?_
      subst hrows
      have hlookup := role_of_lookup h (mem_own.mp hrole)
      exact Option.some.inj (hlookup.symm.trans (hstudent key user_name hkey hget))
    obtain hm | hm := mem_of_exec hx
    · rw [Config.mem_after, hm]
      exact .refl _
    · rw [Config.mem_after, hm]
      exact ReadOnly.sameStores hread c.mem lib t x.files

end Runs

/-- The look-ups of a history, with the values found. -/
def lookups (h : List (Event effects)) : List (String × Option String) :=
  h.filterMap fun
    | ⟨.get key, v⟩ => some (key, v)
    | _ => none

theorem mem_lookups {h : List (Event effects)} {key : String} {v : Option String}
    (hget : (⟨.get key, v⟩ : Event effects) ∈ h) : (key, v) ∈ lookups h :=
  List.mem_filterMap.mpr ⟨_, hget, rfl⟩

/-- A student and a stranger both try to upload a test. -/
theorem no_unprivileged_effect_upload :
    let requests : Nat → Request := fun t =>
      ⟨.add_test_in, .sample "/add?problem_id=p&case_id=1" (if t = 0 then "token=a" else "token=b") "1"⟩
    let m : Memory := { Memory.empty with
      redis := fun key => if key = "OJ:a" then some "alice" else none
      user_table := [⟨"alice", "", "student"⟩] }
    ∃ c c' : Config (machine .sample anyFault),
      Reach anyOrder (start .sample anyFault requests m) c ∧ c.step 0 .quiet = some c' ∧
      SameStores c.mem c'.mem ∧ ∀ e ∈ own 1 c.trace, Harmless e.op = true := by
  intro requests m
  obtain ⟨c, hc, hv⟩ := Config.exists_reach anyOrder (start .sample anyFault requests m)
    [(0, .quiet), (0, .quiet), (1, .quiet), (1, .quiet)]
    (fun c => (lookups (own 0 c.trace), lookups (own 1 c.trace), c.mem.role "alice",
      (c.step 0 .quiet).isSome))
    ([("OJ:a", some "alice")], [("OJ:b", none)], some "student", true) (by decide +kernel)
  simp only [Prod.mk.injEq] at hv
  obtain ⟨halice, hstranger, hrole, hstep⟩ := hv
  obtain ⟨c', hc'⟩ := Option.isSome_iff_exists.mp hstep
  have hstudent := (no_unprivileged_effect .sample requests m hc 0).2 rfl
  have hrefused := (no_unprivileged_effect .sample requests m hc 1).1 (by decide)
  refine ⟨c, c', hc, hc', hstudent ?_ .quiet c' hc', hrefused ?_⟩
  · intro key user_name _ hget
    have hmem := mem_lookups hget
    rw [halice, List.mem_singleton] at hmem
    cases hmem
    exact hrole
  · intro key v _ hget
    have hmem := mem_lookups hget
    rw [hstranger, List.mem_singleton] at hmem
    cases hmem
    rfl

end OJJudge.Storage
