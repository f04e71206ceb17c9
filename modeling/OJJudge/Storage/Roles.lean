import OJJudge.Storage.Accounts
import OJJudge.Storage.Sessions

/-! Who may create accounts.  `userRegist` compares the name of the session's user with `admin` and
`teacher`; the rule is about that user's role. -/

namespace OJJudge.Storage

open Concurrency

/-- The user of the request's session. -/
def sessionUser (req : HttpReq) (m : Memory) : Option String := req.sessionKey?.bind m.redis

/-- The user has an account with the role. -/
def HasRole (m : Memory) (user role : String) : Prop :=
  ∃ account ∈ m.user_table, account.username = user ∧ account.role = role

/-- An administrator may create accounts of every role, and a teacher those of students. -/
def MayRegister (m : Memory) (user role : String) : Prop :=
  (HasRole m user "admin" ∧ role ∈ ["student", "admin", "teacher"]) ∨
    (HasRole m user "teacher" ∧ role = "student")

section Decision

variable {lib : Library} {req : HttpReq}

/-- The registration queues its INSERT. -/
def QueuesInsert (lib : Library) (req : HttpReq) (m : Memory) : Prop :=
  ∃ password_hash rows, (Stmt.insertUser (registered lib req).username password_hash
    (registered lib req).role, rows) ∈
      statements ((UserInfo.userRegist lib req).events (alone lib) m)

theorem userRegist_statements {key : String} (hkey : req.sessionKey? = some key) (m : Memory) :
    statements ((UserInfo.userRegist lib req).events (alone lib) m) =
      if UserInfo.mayCreate ((m.redis key).getD "") (registered lib req).role then
        [(.insertUser (registered lib req).username (registered lib req).password_hash
          (registered lib req).role, [])] else [] := by
  unfold UserInfo.userRegist allowOrigin
  simp only [effect_eq, Prog.op_bind, Prog.ret_bind, hkey]
  rw [events_alone (by simp), events_alone (by simp), events_alone (by simp), events_alone (by simp)]
  simp only [my_sync_check_token, effect_eq, Prog.op_bind, Prog.ret_bind, Prog.pure_eq]
  rw [events_alone (by simp)]
  show statements (Prog.events _
    (if UserInfo.mayCreate ((m.redis key).getD "") (registered lib req).role then _ else _) _) = _
  split
  · rw [events_alone (by simp), events_alone (by simp), events_alone (by simp)]
    rfl
  · rw [events_alone (by simp)]
    rfl

theorem userRegist_statements_none (hkey : req.sessionKey? = none) (m : Memory) :
    statements ((UserInfo.userRegist lib req).events (alone lib) m) = [] := by
  unfold UserInfo.userRegist allowOrigin
  simp only [effect_eq, Prog.op_bind, Prog.ret_bind, hkey]
  rw [events_alone (by simp), events_alone (by simp), events_alone (by simp), events_alone (by simp)]
  rfl

theorem queuesInsert_iff (m : Memory) :
    QueuesInsert lib req m ↔ ∃ user ∈ sessionUser req m,
      UserInfo.mayCreate user (registered lib req).role = true := by
  unfold QueuesInsert sessionUser
  cases hkey : req.sessionKey? with
  | none =>
    rw [userRegist_statements_none hkey]
    simp
  | some key =>
    rw [userRegist_statements hkey]
    cases huser : m.redis key with
    | none => simp [UserInfo.mayCreate, huser]
    | some user => by_cases hmay : UserInfo.mayCreate user (registered lib req).role <;> simp [huser, hmay]

theorem mayCreate_iff (user role : String) :
    UserInfo.mayCreate user role = true ↔
      (user = "admin" ∧ role ∈ ["student", "admin", "teacher"]) ∨
        (user = "teacher" ∧ role = "student") := by
  simp only [UserInfo.mayCreate, Bool.and_eq_true, Bool.or_eq_true, decide_eq_true_eq,
    List.mem_cons, List.not_mem_nil, or_false]
  constructor
  · rintro ⟨hadmin | hteacher, hrole⟩
    · exact .inl ⟨hadmin, by tauto⟩
    · exact .inr hteacher
  · rintro (⟨hadmin, hrole⟩ | ⟨hteacher, hrole⟩)
    · exact ⟨.inl hadmin, by tauto⟩
    · exact ⟨.inr ⟨hteacher, hrole⟩, .inl (.inl hrole)⟩

end Decision

/-- Accounts have one of the three roles. -/
def KnownRoles (m : Memory) : Prop :=
  ∀ account ∈ m.user_table, account.role ∈ ["student", "admin", "teacher"]

/-- The name of the session's user stands for the roles that matter for the new account: `admin` for
an administrator, and `admin` or `teacher`, where the new account is a student's, for a user that is
no mere student. -/
def NameTellsRole (m : Memory) (user role : String) : Prop :=
  (role = "student" → ((user = "admin" ∨ user = "teacher") ↔
    ∃ account ∈ m.user_table, account.username = user ∧ account.role ≠ "student")) ∧
  (role = "admin" ∨ role = "teacher" → (user = "admin" ↔ HasRole m user "admin"))

theorem mayCreate_iff_mayRegister {m : Memory} (hknown : KnownRoles m) (user role : String) :
    (UserInfo.mayCreate user role = true ↔ MayRegister m user role) ↔ NameTellsRole m user role := by
  have hother : (∃ account ∈ m.user_table, account.username = user ∧ account.role ≠ "student") ↔
      HasRole m user "admin" ∨ HasRole m user "teacher" := by
    constructor
    · rintro ⟨account, hmem, hname, hrole⟩
      have hroles := hknown account hmem
      simp only [List.mem_cons, List.not_mem_nil, or_false] at hroles
      obtain h | h | h := hroles
      · exact absurd h hrole
      · exact .inl ⟨account, hmem, hname, h⟩
      · exact .inr ⟨account, hmem, hname, h⟩
    · rintro (⟨account, hmem, hname, hrole⟩ | ⟨account, hmem, hname, hrole⟩)
      · exact ⟨account, hmem, hname, by rw [hrole]; decide⟩
      · exact ⟨account, hmem, hname, by rw [hrole]; decide⟩
  rw [mayCreate_iff, MayRegister, NameTellsRole, hother]
  by_cases hstudent : role = "student"
  · subst hstudent
    simp
  · by_cases hroles : role = "admin" ∨ role = "teacher"
    · have hmem : role ∈ ["student", "admin", "teacher"] := by simpa using .inr hroles
      simp only [hstudent, hroles, hmem, and_true, and_false, or_false, false_implies, true_implies,
        true_and]
    · have hmem : role ∉ ["student", "admin", "teacher"] := by simpa [hstudent] using hroles
      simp only [hstudent, hroles, hmem, and_false, or_false, false_implies, and_self]

/-! ### Histories of registrations and logins -/

section Runs

variable {lib : Library} {mayFail : Op → Bool} {ok : Config (machine lib mayFail) → Nat → Prop}
  {requests : Nat → Request} {m₀ : Memory} {c : Config (machine lib mayFail)}

/-- The requests are registrations and logins. -/
def OnlyAccounts (requests : Nat → Request) : Prop :=
  ∀ t, (requests t).handler = .userRegist ∨ (requests t).handler = .userLogin

/-- The operation adds no account but one with a known role. -/
def AddsKnownRole (o : Op) : Prop :=
  ∀ username password_hash role, o = .query (.insertUser username password_hash role) →
    role ∈ ["student", "admin", "teacher"]

theorem request_addsKnownRole (lib : Library) (hrequests : OnlyAccounts requests) (t : Nat) :
    ((requests t).prog lib).Only AddsKnownRole := by
  unfold Request.prog
  obtain h | h := hrequests t
  · rw [h]
    refine (UserInfo.userRegist_only lib _).mono fun o ho username password_hash role heq => ?_
    cases ho with
    | insertUser hash hrole =>
      cases heq
      exact hrole
    | _ => cases heq
  · rw [h]
    refine (UserInfo.userLogin_only lib _).mono fun o ho username password_hash role heq => ?_
    cases ho <;> cases heq

/-- An account is there before the step, or the step adds it. -/
theorem mem_user_table_of_after {m : Memory} {o : Op} {t : Nat} {files : String → Option Bytes}
    {account : Account} (h : account ∈ (m.after lib t files o).user_table) :
    account ∈ m.user_table ∨
      o = .query (.insertUser account.username account.password_hash account.role) := by
  cases o with
  | query stmt =>
    cases stmt with
    | insertUser username password_hash role =>
      obtain h | h := List.mem_append.mp h
      · exact .inl h
      · obtain rfl := List.mem_singleton.mp h
        exact .inr rfl
    | _ => exact .inl h
  | _ => exact .inl h

theorem knownRoles (hm₀ : KnownRoles m₀) (hrequests : OnlyAccounts requests)
    (h : Reach ok (start lib mayFail requests m₀) c) : KnownRoles c.mem := by
  refine h.induct (I := fun c : Config (machine lib mayFail) => KnownRoles c.mem) hm₀ ?_
  intro c t x o k r m hr ih _ hp hx account hmem
  have honly := hr.only (fun t => request_addsKnownRole lib hrequests t) t
  rw [hp] at honly
  obtain hm | hm := mem_of_exec hx
  · rw [Config.mem_after, hm] at hmem
    exact ih account hmem
  · rw [Config.mem_after, hm] at hmem
    obtain hold | hnew := mem_user_table_of_after hmem
    · exact ih account hold
    · exact honly.1 _ _ _ hnew

end Runs

/-- In every state that registrations and logins reach from one administrator's account, and for
every registration: the INSERT is queued exactly as the roles say, if and only if the name of the
session's user tells its role. -/
theorem creation_follows_roles_iff (lib : Library) (requests : Nat → Request)
    (hrequests : OnlyAccounts requests) (m : Memory) (account : Account)
    (htable : m.user_table = [account]) (hadmin : account.role = "admin")
    {c : Config (machine lib anyFault)}
    (h : Reach anyOrder (start lib anyFault requests m) c) (req : HttpReq) :
    (QueuesInsert lib req c.mem ↔
      ∃ user ∈ sessionUser req c.mem, MayRegister c.mem user (registered lib req).role) ↔
    ∀ user ∈ sessionUser req c.mem, NameTellsRole c.mem user (registered lib req).role := by
  have hknown : KnownRoles c.mem := by
    refine knownRoles ?_ hrequests h
    intro row hrow
    rw [htable, List.mem_singleton] at hrow
    rw [hrow, hadmin]
    decide
  rw [queuesInsert_iff]
  cases sessionUser req c.mem with
  | none => simp
  | some user => simpa using mayCreate_iff_mayRegister hknown user (registered lib req).role

/-- A login and registrations with its session. -/
def loginAndRegist (username token form : String) (t : Nat) : Request :=
  if t = 0 then ⟨.userLogin, .sample "/login" "" ("username=" ++ username ++ "&password=secret")⟩
  else ⟨.userRegist, .sample "/regist" ("token=" ++ token) form⟩

theorem onlyAccounts_loginAndRegist (username token form : String) :
    OnlyAccounts (loginAndRegist username token form) := by
  intro t
  unfold loginAndRegist
  split
  · exact .inr rfl
  · exact .inl rfl

theorem creation_follows_roles_admin :
    let requests := loginAndRegist "admin" "5a92c8f165ff8c87b89d50478fd03f7e00_0_00_0_00"
      "username=bob&password=secret&role=teacher"
    ∃ c, Reach anyOrder (start .sample anyFault requests (.account "admin" "admin")) c ∧
      sessionUser (requests 1).req c.mem = some "admin" ∧
      (QueuesInsert .sample (requests 1).req c.mem ↔ ∃ user ∈ sessionUser (requests 1).req c.mem,
        MayRegister c.mem user (registered .sample (requests 1).req).role) := by
  intro requests
  obtain ⟨c, hc, hv⟩ := Config.exists_reach anyOrder
    (start .sample anyFault requests (.account "admin" "admin")) (List.replicate 11 (0, .quiet))
    (fun c => (sessionUser (requests 1).req c.mem, c.mem.user_table))
    (some "admin", (Memory.account "admin" "admin").user_table) (by decide +kernel)
  obtain ⟨huser, htable⟩ := Prod.mk.injEq .. ▸ hv
  refine ⟨c, hc, huser, (creation_follows_roles_iff .sample requests
    (onlyAccounts_loginAndRegist _ _ _) (.account "admin" "admin") _ rfl rfl hc
    (requests 1).req).mpr ?_⟩
  rw [huser]
  rintro user ⟨⟩
  have hrole : (registered .sample (requests 1).req).role = "teacher" := by decide +kernel
  rw [hrole, NameTellsRole]
  refine ⟨fun h => absurd h (by decide), fun _ => ⟨fun _ => ?_, fun _ => rfl⟩⟩
  rw [HasRole, htable]
  exact ⟨_, List.mem_singleton_self _, rfl, rfl⟩

/-- An administrator whose name is not `admin` may register nobody. -/
theorem administrator_refused :
    let requests := loginAndRegist "alice" "d9605bd19536a1cda03dd932dd182f7f00_0_00_0_00"
      "username=bob&password=secret&role=student"
    ∃ c, Reach anyOrder (start .sample anyFault requests (.account "alice" "admin")) c ∧
      ¬(QueuesInsert .sample (requests 1).req c.mem ↔ ∃ user ∈ sessionUser (requests 1).req c.mem,
        MayRegister c.mem user (registered .sample (requests 1).req).role) := by
  intro requests
  obtain ⟨c, hc, hv⟩ := Config.exists_reach anyOrder
    (start .sample anyFault requests (.account "alice" "admin")) (List.replicate 11 (0, .quiet))
    (fun c => (sessionUser (requests 1).req c.mem, c.mem.user_table))
    (some "alice", (Memory.account "alice" "admin").user_table) (by decide +kernel)
  obtain ⟨huser, htable⟩ := Prod.mk.injEq .. ▸ hv
  refine ⟨c, hc, fun h => ?_⟩
  have hmay : ∃ user ∈ sessionUser (requests 1).req c.mem,
      MayRegister c.mem user (registered .sample (requests 1).req).role := by
    refine ⟨"alice", huser, .inl ⟨?_, by decide +kernel⟩⟩
    rw [HasRole, htable]
    exact ⟨_, List.mem_singleton_self _, rfl, rfl⟩
  obtain ⟨user, huser', hcreate⟩ := (queuesInsert_iff _).mp (h.mpr hmay)
  rw [huser] at huser'
  cases huser'
  exact absurd hcreate (by decide +kernel)

/-! ### Accounts named by their roles -/

/-- The account is named `admin` or `teacher` exactly when that is its role. -/
def NamedByRole (account : Account) : Prop :=
  (account.username = "admin" ↔ account.role = "admin") ∧
    (account.username = "teacher" ↔ account.role = "teacher")

/-- Every account that is added is named by its role. -/
def addsNamedByRole {lib : Library} (c : Config (machine lib anyFault)) (t : Nat) : Prop :=
  ∀ account : Account, (c.prog t).next? = some
    (Op.query (.insertUser account.username account.password_hash account.role)) →
      NamedByRole account

section Named

variable {lib : Library} {requests : Nat → Request} {m : Memory}
  {c : Config (machine lib anyFault)}

theorem namedByRole (hm : ∀ account ∈ m.user_table, NamedByRole account)
    (h : Reach addsNamedByRole (start lib anyFault requests m) c) :
    ∀ account ∈ c.mem.user_table, NamedByRole account := by
  refine h.induct (I := fun c : Config (machine lib anyFault) =>
    ∀ account ∈ c.mem.user_table, NamedByRole account) hm ?_
  intro c t x o k r m' _ ih hok hp hx account hmem
  obtain hm' | hm' := mem_of_exec hx
  · rw [Config.mem_after, hm'] at hmem
    exact ih account hmem
  · rw [Config.mem_after, hm'] at hmem
    obtain hold | hnew := mem_user_table_of_after hmem
    · exact ih account hold
    · exact hok account (by rw [hp, Prog.next?_op, hnew])

/-- The user of a session has an account. -/
theorem sessionUser_account (hm : ∀ key, IsSession key → m.redis key = none)
    (hrequests : OnlyAccounts requests) {ok : Config (machine lib anyFault) → Nat → Prop}
    (h : Reach ok (start lib anyFault requests m) c) {req : HttpReq} {user : String}
    (huser : sessionUser req c.mem = some user) :
    ∃ account ∈ c.mem.user_table, account.username = user := by
  have hplain : Reach (ordinaryIds requests) (start lib anyFault requests m) c := by
    refine h.weaken fun c t _ _ _ _ hchecks => ?_
    obtain hregist | hlogin := hrequests t
    · rw [hregist] at hchecks
      cases hchecks
    · rw [hlogin] at hchecks
      cases hchecks
  obtain ⟨key, hkey, hbound⟩ := Option.bind_eq_some_iff.mp huser
  obtain ⟨token, -, rfl⟩ := Option.map_eq_some_iff.mp hkey
  obtain ⟨-, -, -, account, hmem, hname, -⟩ := bound_loggedIn hm hplain (isSession_append _) hbound
  exact ⟨account, hmem, hname⟩

/-- Where all accounts are named by their roles, account creation follows the roles. -/
theorem creation_follows_names (hm : ∀ key, IsSession key → m.redis key = none)
    (hrequests : OnlyAccounts requests) (hnamed : ∀ account ∈ m.user_table, NamedByRole account)
    (hknown : KnownRoles m) (h : Reach addsNamedByRole (start lib anyFault requests m) c)
    (req : HttpReq) :
    QueuesInsert lib req c.mem ↔
      ∃ user ∈ sessionUser req c.mem, MayRegister c.mem user (registered lib req).role := by
  have hnames := namedByRole hnamed h
  have hroles := knownRoles hknown hrequests h
  rw [queuesInsert_iff]
  refine exists_congr fun user => and_congr_right fun huser => ?_
  obtain ⟨account, hmem, rfl⟩ := sessionUser_account hm hrequests h huser
  refine (mayCreate_iff_mayRegister hroles _ _).mpr ⟨fun _ => ⟨?_, ?_⟩, fun _ => ⟨?_, ?_⟩⟩
  · intro hname
    refine ⟨account, hmem, rfl, fun hstudent => ?_⟩
    obtain hadmin | hteacher := hname
    · exact absurd (((hnames account hmem).1.mp hadmin).symm.trans hstudent) (by decide)
    · exact absurd (((hnames account hmem).2.mp hteacher).symm.trans hstudent) (by decide)
  · rintro ⟨row, hrow, hname, hrole⟩
    rw [← hname]
    have hknown := hroles row hrow
    simp only [List.mem_cons, List.not_mem_nil, or_false] at hknown
    obtain h | h | h := hknown
    · exact absurd h hrole
    · exact .inl ((hnames row hrow).1.mpr h)
    · exact .inr ((hnames row hrow).2.mpr h)
  · intro hname
    exact ⟨account, hmem, rfl, (hnames account hmem).1.mp hname⟩
  · rintro ⟨row, hrow, hname, hrole⟩
    rw [← hname]
    exact (hnames row hrow).1.mpr hrole

end Named

end OJJudge.Storage
