import OJJudge.Storage.Machine
import OJJudge.Uri.Query

/-! Registration and login of one account.  `userRegist` stores the posted name as it stands, and
`userLogin` looks for the decoded one. -/

namespace OJJudge.Storage

open Concurrency

/-! ### Names that decode to themselves -/

/-- A byte string that decodes to itself, whatever the scratch integer holds, has no `%` and no
`+`. -/
theorem literal_of_decodeFrom {s : Bytes} {i : Nat} (h : ∀ ii, decodeFrom i ii s = some s) :
    Literal s := by
  induction s generalizing i with
  | nil => exact fun _ hb => nomatch hb
  | cons ch rest ih =>
    by_cases hpercent : ch = '%'.toUInt8
    · subst hpercent
      -- An escape shrinks the string, unless it is a bare percent sign at the end.
      have hshort : rest = [] := by
        have h0 := h 0
        rw [decodeFrom.eq_def] at h0
        simp only [if_true] at h0
        split at h0
        · cases h0
        · split at h0
          · rfl
          · simp [decodeFrom] at h0
          · obtain ⟨tail, htail, heq⟩ := Option.map_eq_some_iff.mp h0
            have hlen := length_decodeFrom_le htail
            have hsame := congrArg List.length heq
            simp only [List.length_cons] at hsame
            omega
      subst hshort
      have h0 := h 0
      rw [decodeFrom.eq_def] at h0
      simp only [if_true] at h0
      split at h0
      · cases h0
      · have hne : (0 : UInt8) ≠ '%'.toUInt8 := by decide
        exact absurd h0 (by simp [decodeFrom, scanHex, hne])
    · by_cases hplus : ch = '+'.toUInt8
      · subst hplus
        have h0 := h 0
        rw [decodeFrom.eq_def] at h0
        simp only [hpercent, if_false, if_true] at h0
        split at h0
        · cases h0
        · obtain ⟨tail, -, heq⟩ := Option.map_eq_some_iff.mp h0
          exact absurd (List.cons.inj heq).1 (by decide)
      · have hrest : ∀ ii, decodeFrom (i + 1) ii rest = some rest := by
          intro ii
          have hii := h ii
          rw [decodeFrom.eq_def] at hii
          simp only [hpercent, hplus, if_false] at hii
          split at hii
          · cases hii
          · obtain ⟨tail, htail, heq⟩ := Option.map_eq_some_iff.mp hii
            rw [htail, (List.cons.inj heq).2]
        intro b hb
        obtain rfl | hb := List.mem_cons.mp hb
        · exact ⟨hpercent, hplus⟩
        · exact ih hrest b hb

theorem url_decode_eq_self_iff (s : Bytes) :
    (∀ ii, url_decode ii s = some s) ↔ Literal s ∧ s.length ≤ 2147483647 := by
  constructor
  · intro h
    refine ⟨literal_of_decodeFrom h, ?_⟩
    simpa using length_of_decodeFrom (by decide) (h 0)
  · rintro ⟨hliteral, hlen⟩ ii
    obtain ⟨ii', h⟩ := Decodes.literal hliteral 0 ii [] (by simpa using hlen)
    simpa [url_decode, decodeFrom] using h

/-! ### A registration and a login -/

section Alone

variable {lib : Library} {req : HttpReq} {m : Memory}

/-- The account that `userRegist` makes of a form. -/
def registered (lib : Library) (req : HttpReq) : Account where
  username := text ((lib.form_kv req.body).get "username")
  password_hash := lib.crypt (text (cString ((lib.form_kv req.body).get "password"))) passwordSalt
  role := text ((lib.form_kv req.body).get "role")

/-- A registration asks the session for its user, and adds the account when that user may. -/
theorem userRegist_runs (lib : Library) {key : String} (hkey : req.sessionKey? = some key) (m : Memory) :
    ((UserInfo.userRegist lib req).runs (alone lib) m).map (·.2.user_table) =
      some (if UserInfo.mayCreate ((m.redis key).getD "") (registered lib req).role then
        m.user_table ++ [registered lib req] else m.user_table) := by
  unfold UserInfo.userRegist allowOrigin
  simp only [effect_eq, Prog.op_bind, Prog.ret_bind, hkey]
  rw [runs_alone (by simp), runs_alone (by simp), runs_alone (by simp), runs_alone (by simp)]
  simp only [my_sync_check_token, effect_eq, Prog.op_bind, Prog.ret_bind, Prog.pure_eq]
  rw [runs_alone (by simp)]
  show Option.map _ (Prog.runs _ (if UserInfo.mayCreate ((m.redis key).getD "") _ then _ else _) _) = _
  split
  · next hmay =>
    rw [runs_alone (by simp), runs_alone (by simp), runs_alone (by simp)]
    exact congrArg some (if_pos hmay).symm
  · next hmay =>
    rw [runs_alone (by simp)]
    exact congrArg some (if_neg hmay).symm

theorem userRegist_runs_none (lib : Library) (hkey : req.sessionKey? = none) (m : Memory) :
    ((UserInfo.userRegist lib req).runs (alone lib) m).map (·.2.user_table) =
      some m.user_table := by
  unfold UserInfo.userRegist allowOrigin
  simp only [effect_eq, Prog.op_bind, Prog.ret_bind, hkey]
  rw [runs_alone (by simp), runs_alone (by simp), runs_alone (by simp), runs_alone (by simp)]
  rfl

/-- The statements of a history, with their answers. -/
def statements (h : List (Event effects)) : List (Stmt × List (List String)) :=
  h.filterMap fun
    | ⟨.query stmt, rows⟩ => some (stmt, rows)
    | _ => none

theorem statements_eq_nil {p : Code Unit} (hp : p.Only fun o : Op => ∀ stmt, o ≠ .query stmt)
    (m : Memory) : statements (p.events (alone lib) m) = [] := by
  rw [statements, List.filterMap_eq_nil_iff]
  intro e he
  have hop := hp.events e he
  obtain ⟨o, r⟩ := e
  cases o with
  | query stmt => exact absurd rfl (hop stmt)
  | _ => rfl

/-- A login whose form decodes asks the database once. -/
theorem userLogin_statements {username password : Bytes}
    (husername : url_decode req.ii ((lib.form_kv req.body).get "username") = some username)
    (hpassword : url_decode req.ii ((lib.form_kv req.body).get "password") = some password)
    (m : Memory) :
    statements ((UserInfo.userLogin lib req).events (alone lib) m) =
      [(.selectLogin (text username) (registered lib req).password_hash,
        m.rows (.selectLogin (text username) (registered lib req).password_hash) [])] := by
  unfold UserInfo.userLogin allowOrigin
  simp only [effect_eq, Prog.op_bind, Prog.ret_bind, husername, hpassword]
  rw [events_alone (by simp), events_alone (by simp), events_alone (by simp),
    events_alone (by simp), events_alone (by simp), events_alone (by simp)]
  show (_, _) :: statements _ = _
  rw [statements_eq_nil (login_mysqlCallBack_no_query lib _ _)]
  rfl

theorem userLogin_statements_none (lib : Library) (req : HttpReq)
    (h : url_decode req.ii ((lib.form_kv req.body).get "username") = none ∨
      url_decode req.ii ((lib.form_kv req.body).get "password") = none) (m : Memory) :
    statements ((UserInfo.userLogin lib req).events (alone lib) m) = [] := by
  unfold UserInfo.userLogin allowOrigin
  refine statements_eq_nil ?_ m
  simp only [effect_eq, Prog.op_bind, Prog.ret_bind]
  refine ⟨by simp, fun _ => ⟨by simp, fun _ => ⟨by simp, fun _ => ?_⟩⟩⟩
  split
  · next husername hpassword =>
    rw [husername, hpassword] at h
    simp at h
  · trivial

/-- The login asks the database for exactly the stored name and hash, and gets that account. -/
def FindsAccount (lib : Library) (login : HttpReq) (account : Account) (m : Memory) : Prop :=
  statements ((UserInfo.userLogin lib login).events (alone lib) m) =
    [(.selectLogin account.username account.password_hash, [[account.role, account.username]])]

/-- The account that a registration has added. -/
theorem eq_registered {m' : Memory} {account : Account}
    (hruns : (UserInfo.userRegist lib req).runs (alone lib) m = some ((), m'))
    (hinsert : m'.user_table = m.user_table ++ [account]) : account = registered lib req := by
  cases hkey : req.sessionKey? with
  | none =>
    have htable := userRegist_runs_none lib hkey m
    rw [hruns, Option.map_some, hinsert] at htable
    simp at htable
  | some key =>
    have htable := userRegist_runs lib hkey m
    rw [hruns, Option.map_some, hinsert] at htable
    split at htable
    · simpa using htable
    · simp at htable

/-- When a registration has added an account whose name is new, a login with the same name and
password finds it exactly when the name has no `%` and no `+`, and `url_decode` gets through the
name and the password without an overflow of its index. -/
theorem login_finds_registered_iff (lib : Library) (regist login : HttpReq) (m m' m₁ : Memory)
    (account : Account)
    (hname : (lib.form_kv login.body).get "username" = (lib.form_kv regist.body).get "username")
    (hpassword : (lib.form_kv login.body).get "password" = (lib.form_kv regist.body).get "password")
    (hnew : ∀ row ∈ m.user_table, row.username ≠ account.username)
    (hruns : (UserInfo.userRegist lib regist).runs (alone lib) m = some ((), m'))
    (hinsert : m'.user_table = m.user_table ++ [account])
    (hlater : m₁.user_table = m'.user_table) :
    (∀ ii, FindsAccount lib { login with ii := ii } account m₁) ↔
      Literal ((lib.form_kv regist.body).get "username") ∧
      ((lib.form_kv regist.body).get "username").length ≤ 2147483647 ∧
      ∀ ii, url_decode ii ((lib.form_kv regist.body).get "password") ≠ none := by
  obtain rfl := eq_registered hruns hinsert
  have hhash : (registered lib login).password_hash = (registered lib regist).password_hash := by
    simp only [registered, hpassword]
  have hrows : m₁.rows (.selectLogin (registered lib regist).username
      (registered lib regist).password_hash) [] =
        [[(registered lib regist).role, (registered lib regist).username]] := by
    have hnone : m.user_table.filter (fun row => row.username = (registered lib regist).username ∧
        row.password_hash = (registered lib regist).password_hash) = [] := by
      rw [List.filter_eq_nil_iff]
      intro row hrow
      simp [hnew row hrow]
    simp only [Memory.rows, hlater, hinsert, List.filter_append, hnone, List.nil_append]
    simp
  rw [← and_assoc, ← url_decode_eq_self_iff, ← hname, ← hpassword]
  constructor
  · intro h
    have hdecodes : ∀ ii, url_decode ii ((lib.form_kv login.body).get "username") ≠ none ∧
        url_decode ii ((lib.form_kv login.body).get "password") ≠ none := by
      intro ii
      by_contra hnone
      have hfails : url_decode ii ((lib.form_kv login.body).get "username") = none ∨
          url_decode ii ((lib.form_kv login.body).get "password") = none := by
        by_contra hboth
        exact hnone (not_or.mp hboth)
      have hempty := userLogin_statements_none lib { login with ii := ii } hfails m₁
      have hii := h ii
      rw [FindsAccount, hempty] at hii
      cases hii
    refine ⟨fun ii => ?_, fun ii => (hdecodes ii).2⟩
    obtain ⟨username, husername⟩ := Option.ne_none_iff_exists'.mp (hdecodes ii).1
    obtain ⟨password, hpass⟩ := Option.ne_none_iff_exists'.mp (hdecodes ii).2
    have hii := h ii
    rw [FindsAccount, userLogin_statements husername hpass] at hii
    simp only [List.cons.injEq, Prod.mk.injEq, Stmt.selectLogin.injEq] at hii
    have hsame : username = (lib.form_kv regist.body).get "username" :=
      text_injective hii.1.1.1
    rw [husername, hsame, hname]
  · rintro ⟨hself, hdecodes⟩ ii
    obtain ⟨password, hpass⟩ := Option.ne_none_iff_exists'.mp (hdecodes ii)
    have husername : text ((lib.form_kv login.body).get "username") =
        (registered lib regist).username := by
      rw [hname]
      rfl
    rw [FindsAccount, userLogin_statements (hself ii) hpass, husername]
    rw [show (registered lib { login with ii := ii }).password_hash =
      (registered lib regist).password_hash from hhash, hrows]

end Alone

/-- The form of a registration. -/
def registration (username : String) : HttpReq :=
  .sample "/regist" "token=t" ("username=" ++ username ++ "&password=secret&role=student")

/-- The user `admin` has a session. -/
def Memory.adminSession : Memory :=
  { Memory.account "admin" "admin" with redis := fun key => if key = "OJ:t" then some "admin" else none }

/-- The account of that registration. -/
def registeredAccount (username : String) : Account :=
  ⟨username, "$5$73256$RSe39LE1w6eu3q4uIrArcDxgcmAjyg89mEclDVvVSS6", "student"⟩

theorem login_finds_registered_bob :
    ∃ m', (UserInfo.userRegist .sample (registration "bob")).runs (alone .sample) .adminSession =
        some ((), m') ∧
      FindsAccount .sample (.sample "/login" "" "username=bob&password=secret")
        (registeredAccount "bob") m' := by
  have hrun : ((UserInfo.userRegist .sample (registration "bob")).runs (alone .sample)
      .adminSession).map (·.2.user_table) =
        some (Memory.adminSession.user_table ++ [registeredAccount "bob"]) := by decide +kernel
  obtain ⟨⟨⟨⟩, m'⟩, hruns, htable⟩ := Option.map_eq_some_iff.mp hrun
  refine ⟨m', hruns, ?_⟩
  have hname : (Library.sample.form_kv (registration "bob").body).get "username" = bytes "bob" := by
    decide +kernel
  have hpassword : (Library.sample.form_kv (registration "bob").body).get "password" =
      bytes "secret" := by decide +kernel
  have hplain : ∀ s ∈ [bytes "bob", bytes "secret"], Literal s ∧ s.length ≤ 2147483647 := by
    unfold Literal
    decide +kernel
  have hliteral := hplain (bytes "bob") (by simp)
  have hdecodes := (url_decode_eq_self_iff _).mpr (hplain (bytes "secret") (by simp))
  have h := (login_finds_registered_iff .sample (registration "bob")
    (.sample "/login" "" "username=bob&password=secret") .adminSession m' m' (registeredAccount "bob")
    (by decide +kernel) (by decide +kernel) (by decide +kernel) hruns htable rfl).mpr
      ⟨hname ▸ hliteral.1, hname ▸ hliteral.2, fun ii => by rw [hpassword, hdecodes ii]; simp⟩
  exact h 0

/-- A registered name with a plus sign is not found: the login looks for a blank in its place. -/
theorem login_misses_registered :
    ∃ m', (UserInfo.userRegist .sample (registration "a+b")).runs (alone .sample) .adminSession =
        some ((), m') ∧ m'.user_table =
        Memory.adminSession.user_table ++ [registeredAccount "a+b"] ∧
      ¬FindsAccount .sample (.sample "/login" "" "username=a+b&password=secret")
        (registeredAccount "a+b") m' := by
  have hrun : ((UserInfo.userRegist .sample (registration "a+b")).runs (alone .sample)
      .adminSession).map (fun e => (e.2.user_table, statements ((UserInfo.userLogin .sample
        (.sample "/login" "" "username=a+b&password=secret")).events (alone .sample) e.2))) =
        some (Memory.adminSession.user_table ++ [registeredAccount "a+b"],
          [(.selectLogin "a b" (registeredAccount "a+b").password_hash, [])]) := by decide +kernel
  obtain ⟨⟨⟨⟩, m'⟩, hruns, hv⟩ := Option.map_eq_some_iff.mp hrun
  obtain ⟨htable, hstatements⟩ := Prod.mk.injEq .. ▸ hv
  refine ⟨m', hruns, htable, ?_⟩
  rw [FindsAccount, hstatements]
  decide

end OJJudge.Storage
