import OJJudge.Storage.Privilege

/-! Where session keys come from.  Sessions, judge states, upload markers and counters share one flat
key space.  Only a login makes a session key, unless an upload has a problem id that begins with the
session prefix. -/

namespace OJJudge.Storage

open Concurrency

/-- The key begins with the session prefix. -/
def IsSession (key : String) : Prop := "OJ:".toList <+: key.toList

instance (key : String) : Decidable (IsSession key) := inferInstanceAs (Decidable (_ <+: _))

theorem isSession_append (token : String) : IsSession ("OJ:" ++ token) := by
  simp [IsSession, String.toList_append]

theorem not_isSession_judge (s : String) : ¬IsSession ("Judge:" ++ s) := by
  simp [IsSession, String.toList_append]

/-- A key that begins with a problem id and goes on with an underscore begins with the session
prefix only when the id does. -/
theorem IsSession.of_append {problem_id s : String} (hs : s.toList.head? = some '_')
    (h : IsSession (problem_id ++ s)) : IsSession problem_id := by
  obtain ⟨rest, hrest⟩ := List.head?_eq_some_iff.mp hs
  simp only [IsSession, String.toList_append, hrest] at h ⊢
  generalize problem_id.toList = id at h ⊢
  match id with
  | [] | [a] | [a, b] => simp at h
  | a :: b :: c :: rest => simpa using h

theorem IsSession.of_inCaseName {problem_id case_id : String}
    (h : IsSession (inCaseName problem_id case_id)) : IsSession problem_id := by
  rw [inCaseName, String.append_assoc, String.append_assoc] at h
  exact h.of_append (by simp)

theorem IsSession.of_counterKey {problem_id : String} (h : IsSession (counterKey problem_id)) :
    IsSession problem_id :=
  h.of_append (by simp)

/-- The key that an operation can bind. -/
def Binds : Op → Option String
  | .set key _ | .incr key => some key
  | _ => none

/-- The session keys that a request can bind: a login binds one, and an upload only when its problem
id begins with the session prefix. -/
def BindsSession (request : Request) (o : Op) : Prop :=
  ∀ key, Binds o = some key → IsSession key →
    (request.handler = .userLogin ∧ ∃ v, o = .set key v) ∨
    ChecksRole request.handler = true ∧ ∃ KVpairs, request.req.KVpairs = some KVpairs ∧
      IsSession (text (KVpairs.get "problem_id"))

theorem runner_binds {conf : IsolateConf} {task : Runner_task} {o : Op} {key : String}
    (ho : RunnerOp conf task o) (h : Binds o = some key) : ¬IsSession key := by
  cases ho with
  | setTest i value =>
    cases h
    unfold testKey
    rw [String.append_assoc, String.append_assoc]
    exact not_isSession_judge _
  | count | setError code =>
    cases h
    unfold sumKey
    rw [String.append_assoc]
    exact not_isSession_judge _
  | _ => cases h

theorem submission_binds {conf : IsolateConf} {user_name porblem_title : String} {body : Bytes}
    {o : Op} {key : String} (ho : SubmissionOp conf user_name porblem_title body o)
    (h : Binds o = some key) : ¬IsSession key := by
  cases ho with
  | job task _ _ ho => exact runner_binds ho h
  | setJudge =>
    cases h
    exact not_isSession_judge _
  | reset =>
    cases h
    unfold sumKey
    rw [String.append_assoc]
    exact not_isSession_judge _
  | _ => cases h

theorem request_binds (lib : Library) (request : Request) :
    (request.prog lib).Only (BindsSession request) := by
  obtain ⟨handler, req⟩ := request
  have hget : ∀ (request : Request) key, BindsSession request (.get key) :=
    fun _ _ _ h => nomatch h
  have hstatus : ∀ (request : Request) code, BindsSession request (.set_status_code code) :=
    fun _ _ _ h => nomatch h
  unfold Request.prog
  cases handler with
  | userRegist =>
    refine (UserInfo.userRegist_only lib req).mono fun o ho key h => ?_
    cases ho <;> cases h
  | userLogin =>
    refine (UserInfo.userLogin_only lib req).mono fun o ho key h _ => .inl ⟨rfl, ?_⟩
    cases ho with
    | setSession token username =>
      cases h
      exact ⟨username, rfl⟩
    | _ => cases h
  | runCpp =>
    refine withParams_only fun _ _ => session_only (hget _) (hstatus _ _) fun _ => ?_
    exact (runCpp_only ..).mono fun o ho key h hkey => absurd hkey (submission_binds ho h)
  | runState =>
    refine withParams_only fun _ _ => session_only (hget _) (hstatus _ _) fun _ => ?_
    refine (runState_only ..).mono fun o ho key h => ?_
    cases ho <;> cases h
  | add_problem =>
    refine withParams_only fun _ _ => session_only (hget _) (hstatus _ _) fun _ => ?_
    refine (add_problem_only ..).mono fun o ho key h => ?_
    cases ho <;> cases h
  | add_test_in =>
    refine withParams_only fun KVpairs hKVpairs => session_only (hget _) (hstatus _ _) fun _ => ?_
    refine (add_test_in_only ..).mono fun o ho key h hkey => .inr ⟨rfl, KVpairs, hKVpairs, ?_⟩
    cases ho with
    | setMarker =>
      cases h
      exact hkey.of_inCaseName
    | _ => cases h
  | add_test_out =>
    refine withParams_only fun KVpairs hKVpairs => session_only (hget _) (hstatus _ _) fun _ => ?_
    refine (add_test_out_only ..).mono fun o ho key h hkey => .inr ⟨rfl, KVpairs, hKVpairs, ?_⟩
    cases ho with
    | count =>
      cases h
      exact hkey.of_counterKey
    | _ => cases h
  | get_problem_list =>
    refine withParams_only fun _ _ => session_only (hget _) (hstatus _ _) fun _ => ?_
    refine (get_problem_list_only _).mono fun o ho key h => ?_
    cases ho <;> cases h

/-! ### Logins -/

/-- The user name that a login has submitted. -/
def submitted (lib : Library) (req : HttpReq) : Option String :=
  (url_decode req.ii ((lib.form_kv req.body).get "username")).map text

/-- A login sets the session key of the submitted name at the time that it has read. -/
def SetsToken (lib : Library) (req : HttpReq) (h : List (Event effects)) (o : Op) : Prop :=
  ∀ key v, o = .set key v → ∃ u ptm, submitted lib req = some u ∧
    (⟨.localtime, ptm⟩ : Event effects) ∈ h ∧ key = "OJ:" ++ generateToken lib u ptm

/-- A login binds its session key to the name in the first row that it got. -/
def BindsFound (h : List (Event effects)) (o : Op) : Prop :=
  ∀ key v, o = .set key v → ∃ username password_hash role cells rest,
    (⟨Op.query (.selectLogin username password_hash), (role :: v :: cells) :: rest⟩ :
      Event effects) ∈ h

theorem userLogin_sets (lib : Library) (req : HttpReq) :
    (UserInfo.userLogin lib req).Wp (Records fun _ _ => True)
      (fun h o => SetsToken lib req h o ∧ BindsFound h o) (fun _ _ => True) [] := by
  have hother : ∀ {h : List (Event effects)} {o : Op}, (∀ key v, o ≠ .set key v) →
      SetsToken lib req h o ∧ BindsFound h o := fun ho =>
    ⟨fun key v hset => absurd hset (ho key v), fun key v hset => absurd hset (ho key v)⟩
  refine ⟨hother (by simp), fun _ _ _ => ⟨hother (by simp), fun _ _ _ =>
    ⟨hother (by simp), fun _ h _ => ?_⟩⟩⟩
  simp only [Prog.bind_eq, Prog.ret_bind, Prog.pure_eq]
  split
  · next username _ husername _ =>
    refine ⟨hother (by simp), fun _ _ _ => ⟨hother (by simp), fun password h₁ _ =>
      ⟨hother (by simp), ?_⟩⟩⟩
    rintro form _ ⟨-, rfl⟩
    simp only [Prog.bind_eq, Prog.ret_bind]
    unfold login_mysqlCallBack
    split
    · exact ⟨hother (by simp), fun _ _ _ => ⟨hother (by simp), fun _ _ _ => trivial⟩⟩
    · exact ⟨hother (by simp), fun _ _ _ => ⟨hother (by simp), fun _ _ _ => trivial⟩⟩
    · exact ⟨hother (by simp), fun _ _ _ => trivial⟩
    · refine ⟨hother (by simp), ?_⟩
      rintro ptm _ ⟨-, rfl⟩
      refine ⟨hother (by simp), ?_⟩
      rintro _ _ ⟨-, rfl⟩
      refine ⟨hother (by simp), ?_⟩
      rintro _ _ ⟨-, rfl⟩
      refine ⟨⟨?_, ?_⟩, fun _ _ _ => ⟨hother (by simp), fun _ _ _ => trivial⟩⟩
      · intro key v hset
        cases hset
        refine ⟨text username, ptm, ?_, .tail _ (.tail _ (.head _)), rfl⟩
        rw [submitted, husername]
        rfl
      · intro key v hset
        cases hset
        exact ⟨_, _, _, _, _, .tail _ (.tail _ (.tail _ (.head _)))⟩
  · trivial

section Runs

variable {lib : Library} {mayFail : Op → Bool} {ok : Config (machine lib mayFail) → Nat → Prop}
  {requests : Nat → Request} {m₀ : Memory} {c : Config (machine lib mayFail)}

theorem start_login {t : Nat} (hlogin : (requests t).handler = .userLogin) :
    ((start lib mayFail requests m₀).prog t).Wp (Records fun _ _ => True)
      (fun h o => SetsToken lib (requests t).req h o ∧ BindsFound h o) (fun _ _ => True) [] := by
  show ((requests t).prog lib).Wp _ _ _ _
  rw [Request.prog, hlogin]
  exact userLogin_sets lib _

/-- No account is removed. -/
theorem mem_user_table_after {m : Memory} {account : Account} (h : account ∈ m.user_table)
    (lib : Library) (t : Nat) (files : String → Option Bytes) (o : Op) :
    account ∈ (m.after lib t files o).user_table := by
  cases o with
  | query stmt =>
    cases stmt with
    | insertUser => exact List.mem_append_left _ h
    | _ => exact h
  | _ => exact h

theorem mem_user_table_step {t : Nat} {x : Choice} {o : Op} {k : o.Res → Code Unit} {r : o.Res}
    {m : Memory} (hx : (machine lib mayFail).exec t o x c.mem = some (r, m)) {account : Account}
    (h : account ∈ c.mem.user_table) : account ∈ (c.after t o r k m).mem.user_table := by
  obtain hm | hm := mem_of_exec hx
  · rwa [Config.mem_after, hm]
  · rw [Config.mem_after, hm]
    exact mem_user_table_after h ..

/-- The rows of a login are those of accounts with the given name and hash. -/
theorem account_of_login (h : Reach ok (start lib mayFail requests m₀) c) {t : Nat}
    {username password_hash : String} {rows : List (List String)} {row : List String}
    (he : (t, ⟨Op.query (.selectLogin username password_hash), rows⟩) ∈ c.trace)
    (hrow : row ∈ rows) :
    ∃ account ∈ c.mem.user_table, account.username = username ∧
      account.password_hash = password_hash ∧ row = [account.role, account.username] := by
  refine h.induct (I := fun c : Config (machine lib mayFail) => ∀ t rows,
    (t, (⟨Op.query (.selectLogin username password_hash), rows⟩ : Event effects)) ∈ c.trace →
    ∀ row ∈ rows, ∃ account ∈ c.mem.user_table, account.username = username ∧
      account.password_hash = password_hash ∧ row = [account.role, account.username]) ?_ ?_
    t rows he row hrow
  · intro t rows he
    cases he
  · intro c u x o k r m _ ih _ _ hx t rows he row hrow
    obtain heq | hold := List.mem_cons.mp he
    · cases heq
      have hquery : exec lib mayFail u (.query (.selectLogin username password_hash)) x c.mem =
        some (rows, m) := hx
      obtain ⟨-, rfl, -⟩ | ⟨rfl, rfl⟩ := exec_cases hquery
      · cases hrow
      · obtain ⟨account, hmem, rfl⟩ := List.mem_map.mp hrow
        obtain ⟨hmem, heq⟩ := List.mem_filter.mp hmem
        obtain ⟨hname, hhash⟩ := of_decide_eq_true heq
        exact ⟨account, hmem, hname, hhash, rfl⟩
    · obtain ⟨account, hmem, haccount⟩ := ih t rows hold row hrow
      exact ⟨account, mem_user_table_step hx hmem, haccount⟩

/-- A login has bound the key to the user name of the account that it found. -/
def LoggedIn (requests : Nat → Request) (c : Config (machine lib mayFail)) (key v : String) :
    Prop :=
  ∃ t, (requests t).handler = .userLogin ∧ (⟨.set key v, ()⟩ : Event effects) ∈ own t c.trace ∧
    ∃ account ∈ c.mem.user_table, account.username = v ∧ ∃ rest,
      (⟨Op.query (.selectLogin v account.password_hash), [account.role, v] :: rest⟩ :
        Event effects) ∈ own t c.trace

/-- No upload that binds a marker or a counter has a problem id that begins with the session
prefix. -/
def ordinaryIds (requests : Nat → Request) (c : Config (machine lib mayFail)) (t : Nat) : Prop :=
  ∀ _ ∈ (c.prog t).next?.bind Binds, ChecksRole (requests t).handler = true →
    ∀ KVpairs ∈ (requests t).req.KVpairs, ¬IsSession (text (KVpairs.get "problem_id"))

instance (requests : Nat → Request) :
    ∀ (c : Config (machine lib mayFail)) (t : Nat), Decidable (ordinaryIds requests c t) :=
  fun _ _ => by unfold ordinaryIds; infer_instance

/-- The key is bound as before, or the operation binds it. -/
theorem redis_after {m : Memory} {o : Op} {t : Nat} {files : String → Option Bytes} {key v : String}
    (h : (m.after lib t files o).redis key = some v) :
    m.redis key = some v ∨ o = .set key v ∨ o = .incr key := by
  cases o with
  | set key' value =>
    by_cases hkey : key = key'
    · subst hkey
      refine .inr (.inl ?_)
      rw [show v = value by simpa [Memory.after, Memory.setRedis] using h.symm]
    · exact .inl (by simpa [Memory.after, Memory.setRedis, hkey] using h)
  | incr key' =>
    by_cases hkey : key = key'
    · exact .inr (.inr (by rw [hkey]))
    · exact .inl (by simpa [Memory.after, Memory.setRedis, hkey] using h)
  | del key' =>
    by_cases hkey : key = key'
    · subst hkey
      simp [Memory.after, Memory.setRedis] at h
    · exact .inl (by simpa [Memory.after, Memory.setRedis, hkey] using h)
  | query stmt => cases stmt <;> exact .inl h
  | _ => exact .inl h

theorem LoggedIn.step {t : Nat} {x : Choice} {o : Op} {k : o.Res → Code Unit} {r : o.Res}
    {m : Memory} {key v : String} (hx : (machine lib mayFail).exec t o x c.mem = some (r, m))
    (h : LoggedIn requests c key v) : LoggedIn requests (c.after t o r k m) key v := by
  obtain ⟨u, hlogin, hset, account, hmem, hname, rest, hquery⟩ := h
  have hgrow : ∀ {e : Event effects}, e ∈ own u c.trace → e ∈ own u (c.after t o r k m).trace := by
    intro e he
    rw [mem_own] at he ⊢
    exact List.mem_cons_of_mem _ he
  exact ⟨u, hlogin, hgrow hset, account, mem_user_table_step hx hmem, hname, rest, hgrow hquery⟩

/-- A login that binds a key has found the account of the name that it binds it to. -/
theorem loggedIn_of_set (h : Reach ok (start lib mayFail requests m₀) c) {t : Nat} {x : Choice}
    {key v : String} {k : Unit → Code Unit} {m : Memory}
    (hp : c.prog t = .op (Op.set key v) k)
    (hx : (machine lib mayFail).exec t (Op.set key v) x c.mem = some ((), m))
    (hlogin : (requests t).handler = .userLogin) :
    LoggedIn requests (c.after t (Op.set key v) () k m) key v := by
  have hwp := h.history_op t rfl (start_login hlogin) fun _ _ _ _ _ _ _ _ _ => trivial
  rw [hp] at hwp
  obtain ⟨username, password_hash, role, cells, rest, hquery⟩ := hwp.1.2 key v rfl
  obtain ⟨account, hmem, hname, hhash, hrow⟩ :=
    account_of_login h (mem_own.mp hquery) (List.mem_cons_self ..)
  simp only [List.cons.injEq] at hrow
  obtain ⟨rfl, hv, rfl⟩ := hrow
  obtain rfl : v = username := hv.trans hname
  subst hhash
  refine ⟨t, hlogin, ?_, account, mem_user_table_step hx hmem, hname, rest, ?_⟩
  · simp
  · rw [Config.trace_after, own_cons_same]
    exact List.mem_cons_of_mem _ hquery

/-- Every bound session key was bound by a login, to the name of the account that it found. -/
theorem bound_loggedIn (hm₀ : ∀ key, IsSession key → m₀.redis key = none)
    (h : Reach (ordinaryIds requests) (start lib mayFail requests m₀) c) {key v : String}
    (hkey : IsSession key) (hv : c.mem.redis key = some v) : LoggedIn requests c key v := by
  refine h.induct (I := fun c : Config (machine lib mayFail) => ∀ key v, IsSession key →
    c.mem.redis key = some v → LoggedIn requests c key v) ?_ ?_ key v hkey hv
  · intro key v hkey hv
    rw [show (start lib mayFail requests m₀).mem.redis key = none from hm₀ key hkey] at hv
    cases hv
  · intro c t x o k r m hr ih hok hp hx key v hkey hv
    have hold : c.mem.redis key = some v → LoggedIn requests (c.after t o r k m) key v :=
      fun hv => (ih key v hkey hv).step hx
    have honly := hr.only (fun t => request_binds lib (requests t)) t
    rw [hp] at honly
    have hbinds : Binds o = some key →
        (requests t).handler = .userLogin ∧ ∃ v, o = .set key v := by
      intro hbinds
      obtain hlogin | ⟨hupload, KVpairs, hKVpairs, hid⟩ := honly.1 key hbinds hkey
      · exact hlogin
      · refine absurd hid (hok key ?_ hupload KVpairs hKVpairs)
        rw [hp]
        exact hbinds
    obtain hm | hm := mem_of_exec hx
    · exact hold (by rwa [Config.mem_after, hm] at hv)
    · rw [Config.mem_after, hm] at hv
      obtain hv | rfl | rfl := redis_after hv
      · exact hold hv
      · exact loggedIn_of_set hr hp hx (hbinds rfl).1
      · obtain ⟨-, v, hincr⟩ := hbinds rfl
        cases hincr

/-- Sessions come only from logins: every bound session key was bound by a login, to the name of the
account that it found, and a session check finds only names so bound. -/
theorem sessions_from_logins (lib : Library) (requests : Nat → Request) (m : Memory)
    (hm : ∀ key, IsSession key → m.redis key = none) {c : Config (machine lib anyFault)}
    (h : Reach (ordinaryIds requests) (start lib anyFault requests m) c) :
    (∀ key v, IsSession key → c.mem.redis key = some v → LoggedIn requests c key v) ∧
      ∀ t key v, IsSession key → (t, ⟨Op.get key, some v⟩) ∈ c.trace →
        LoggedIn requests c key v := by
  refine ⟨fun key v hkey hv => bound_loggedIn hm h hkey hv, ?_⟩
  refine h.induct (I := fun c : Config (machine lib anyFault) => ∀ t key v, IsSession key →
    (t, (⟨Op.get key, some v⟩ : Event effects)) ∈ c.trace → LoggedIn requests c key v) ?_ ?_
  · intro t key v _ he
    cases he
  · intro c t x o k r m' hr ih hok hp hx u key v hkey he
    obtain heq | hold := List.mem_cons.mp he
    · cases heq
      have hget : exec lib anyFault t (.get key) x c.mem = some (some v, m') := hx
      obtain ⟨-, hfail, -⟩ | ⟨hv, -⟩ := exec_cases hget
      · cases hfail
      · exact (bound_loggedIn hm hr hkey hv.symm).step hx
    · exact (ih u key v hkey hold).step hx

end Runs

/-- Alice logs in at midnight, and then uploads a test for a problem. -/
def loginAndUpload (problem_id : String) (t : Nat) : Request :=
  if t = 0 then ⟨.userLogin, .sample "/login" "" "username=alice&password=secret"⟩
  else ⟨.add_test_in, .sample ("/add?case_id=1&problem_id=" ++ problem_id)
    "token=d9605bd19536a1cda03dd932dd182f7f00_0_00_0_00" "1"⟩

theorem sessions_from_logins_alice :
    ∃ c, Reach (ordinaryIds (loginAndUpload "p"))
        (start .sample anyFault (loginAndUpload "p") (.account "alice" "teacher")) c ∧
      c.mem.redis "p_input_1.txt" = some "1" ∧
      LoggedIn (loginAndUpload "p") c "OJ:d9605bd19536a1cda03dd932dd182f7f00_0_00_0_00" "alice" := by
  obtain ⟨c, hc, hv⟩ := Config.exists_reach (ordinaryIds (loginAndUpload "p"))
    (start .sample anyFault (loginAndUpload "p") (.account "alice" "teacher"))
    (List.replicate 11 (0, .quiet) ++ List.replicate 7 (1, .quiet))
    (fun c => (c.mem.redis "p_input_1.txt",
      c.mem.redis "OJ:d9605bd19536a1cda03dd932dd182f7f00_0_00_0_00"))
    (some "1", some "alice") (by decide +kernel)
  obtain ⟨hmarker, hsession⟩ := Prod.mk.injEq .. ▸ hv
  exact ⟨c, hc, hmarker, (sessions_from_logins .sample (loginAndUpload "p")
    (.account "alice" "teacher") (fun _ _ => rfl) hc).1 _ _ (by decide +kernel) hsession⟩

/-- An upload for the problem `OJ:x` makes a session of the user `1`, who has no account. -/
theorem session_from_upload :
    ∃ c, Reach anyOrder
        (start .sample anyFault (loginAndUpload "OJ:x") (.account "alice" "teacher")) c ∧
      IsSession "OJ:x_input_1.txt" ∧ c.mem.redis "OJ:x_input_1.txt" = some "1" ∧
      ¬LoggedIn (loginAndUpload "OJ:x") c "OJ:x_input_1.txt" "1" := by
  obtain ⟨c, hc, hv⟩ := Config.exists_reach anyOrder
    (start .sample anyFault (loginAndUpload "OJ:x") (.account "alice" "teacher"))
    (List.replicate 11 (0, .quiet) ++ List.replicate 7 (1, .quiet))
    (fun c => (c.mem.redis "OJ:x_input_1.txt", c.mem.user_table.map (·.username)))
    (some "1", ["alice"]) (by decide +kernel)
  obtain ⟨hmarker, hnames⟩ := Prod.mk.injEq .. ▸ hv
  refine ⟨c, hc, by decide +kernel, hmarker, ?_⟩
  rintro ⟨t, -, -, account, hmem, hname, -⟩
  have hlist := List.mem_map_of_mem (f := (·.username)) hmem
  rw [hnames, hname] at hlist
  exact absurd hlist (by decide)

end OJJudge.Storage
