import OJJudge.Server.Pair
import OJJudge.Storage.Roles

/-! Names that keep the requests of a server apart.  When user names, titles and problem ids have no
underscore, the keys of a pair are its own, and when its problem is not uploaded, so are its rows. -/

namespace OJJudge.Server

open Concurrency

/-! ### Names -/

/-- The name has no underscore. -/
def Plain (name : String) : Prop := '_' ∉ name.toList

instance (name : String) : Decidable (Plain name) := inferInstanceAs (Decidable (_ ∉ _))

/-- The text in front of the first occurrence of a character is determined by the whole. -/
theorem cons_append_inj {a b ds es : List Char} {c : Char} (ha : c ∉ a) (hb : c ∉ b)
    (h : a ++ c :: ds = b ++ c :: es) : a = b ∧ ds = es := by
  have hreverse := congrArg List.reverse h
  simp only [List.reverse_append, List.reverse_cons, List.append_assoc, List.singleton_append]
    at hreverse
  obtain ⟨hds, hab⟩ := append_cons_inj (by simpa using ha) (by simpa using hb) hreverse
  exact ⟨List.reverse_inj.mp hab, List.reverse_inj.mp hds⟩

section Names

variable {user title user' title' problem_id case_id : String}

theorem toList_fileName (user title : String) :
    (fileName user title).toList = user.toList ++ '_' :: '_' :: title.toList := by
  simp [fileName]

theorem fileName_inj (huser : Plain user) (huser' : Plain user')
    (h : fileName user title = fileName user' title') : user = user' ∧ title = title' := by
  have hlist := congrArg String.toList h
  rw [toList_fileName, toList_fileName] at hlist
  obtain ⟨hname, hrest⟩ := cons_append_inj huser huser' hlist
  exact ⟨String.toList_inj.mp hname, String.toList_inj.mp (List.cons.inj hrest).2⟩

theorem count_fileName (huser : Plain user) (htitle : Plain title) :
    (fileName user title).toList.count '_' = 2 := by
  rw [toList_fileName, List.count_append, List.count_cons_self, List.count_cons_self,
    List.count_eq_zero.mpr huser, List.count_eq_zero.mpr htitle]

/-- Two pairs of plain names share no key. -/
theorem disjoint_keysOf_of_plain (huser : Plain user) (htitle : Plain title)
    (huser' : Plain user') (htitle' : Plain title') (hne : ¬(user' = user ∧ title' = title)) :
    Disjoint (keysOf (fileName user' title')) (keysOf (fileName user title)) := by
  have hcount := count_fileName huser htitle
  have hcount' := count_fileName huser' htitle'
  have hlonger : ∀ {f g s : String}, f.toList.count '_' = 2 → g.toList.count '_' = 2 →
      1 ≤ s.toList.count '_' → f ≠ g ++ s := by
    rintro f g s hf hg hs rfl
    rw [String.toList_append, List.count_append] at hf
    omega
  refine disjoint_keysOf.mpr ⟨fun h => hne (fileName_inj huser' huser h),
    hlonger hcount' hcount (by decide), hlonger hcount hcount' (by decide), fun i => ?_, fun i => ?_⟩
  · rw [String.append_assoc]
    exact hlonger hcount' hcount (by simp)
  · rw [String.append_assoc]
    exact hlonger hcount hcount' (by simp)

/-- Behind `Judge:` and the user, the keys of a pair go on with two underscores. -/
theorem toList_of_mem_keysOf {key : String} (h : key ∈ keysOf (fileName user title)) :
    ∃ rest, key.toList = ("Judge:".toList ++ user.toList) ++ '_' :: '_' :: rest := by
  obtain (rfl | rfl) | ⟨i, rfl⟩ := h
  · exact ⟨title.toList, by simp [judgeKey, toList_fileName]⟩
  · exact ⟨title.toList ++ "__sum".toList, by simp [sumKey, toList_fileName]⟩
  · exact ⟨title.toList ++ '_' :: (toString i).toList, by simp [testKey, toList_fileName]⟩

theorem not_mem_keysOf_of_head {key : String} (huser : Plain user) (hid : Plain problem_id) (c : Char)
    (rest : List Char) (hkey : key.toList = problem_id.toList ++ '_' :: c :: rest) (hc : c ≠ '_') :
    key ∉ keysOf (fileName user title) := by
  intro hmem
  obtain ⟨rest', hrest'⟩ := toList_of_mem_keysOf hmem
  have hplain : '_' ∉ "Judge:".toList ++ user.toList := by
    rw [List.mem_append, not_or]
    exact ⟨by decide, huser⟩
  have hcons := (cons_append_inj hid hplain (hkey.symm.trans hrest')).2
  exact hc (List.cons.inj hcons).1

theorem counterKey_not_mem (huser : Plain user) (hid : Plain problem_id) :
    counterKey problem_id ∉ keysOf (fileName user title) :=
  not_mem_keysOf_of_head huser hid 't' "otal_case_num".toList (by simp [counterKey]) (by decide)

theorem inCaseName_not_mem (huser : Plain user) (hid : Plain problem_id) :
    inCaseName problem_id case_id ∉ keysOf (fileName user title) :=
  not_mem_keysOf_of_head huser hid 'i' ("nput_".toList ++ case_id.toList ++ ".txt".toList)
    (by simp [inCaseName]) (by decide)

theorem session_not_mem (token : String) : "OJ:" ++ token ∉ keysOf (fileName user title) := by
  intro hmem
  obtain ⟨rest, hrest⟩ := toList_of_mem_keysOf hmem
  simp at hrest

end Names

/-! ### The operations of the handlers -/

section Handlers

variable {user title user' title' : String} {o : Op}

theorem submissionOp_apart {conf : IsolateConf} {body : Bytes}
    (hkeys : Disjoint (keysOf (fileName user' title')) (keysOf (fileName user title)))
    (ho : SubmissionOp conf user' title' body o) : Apart user title o := by
  rw [Set.disjoint_left] at hkeys
  cases ho with
  | setJudge => exact hkeys (judgeKey_mem_keysOf _)
  | reset => exact hkeys (sumKey_mem_keysOf _)
  | job task hpath hname ho =>
    cases ho with
    | setTest i value => exact hkeys (hname ▸ testKey_mem_keysOf task.file_name i)
    | count | setError code => exact hkeys (hname ▸ sumKey_mem_keysOf task.file_name)
    | _ => trivial
  | _ => trivial

theorem stateOp_apart (hne : ¬(user' = user ∧ title' = title))
    (hkeys : Disjoint (keysOf (fileName user' title')) (keysOf (fileName user title)))
    (ho : StateOp user' title' o) : Apart user title o := by
  cases ho with
  | insertSubmission result => exact hne
  | delTest i => exact Set.disjoint_left.mp hkeys (testKey_mem_keysOf _ i)
  | _ => trivial

variable {problem_id case_id Creater_user_id : String} {conf : IsolateConf} {body : Bytes}

theorem addProblemOp_apart {params : ProblemParams} (huser : Plain user)
    (hid : Plain params.problem_id) (hne : params.problem_id ≠ title)
    (ho : AddProblemOp Creater_user_id params body o) : Apart user title o := by
  cases ho with
  | delCounter => exact counterKey_not_mem huser hid
  | deleteRows | insertProblem => exact hne
  | _ => trivial

theorem addTestInOp_apart (huser : Plain user) (hid : Plain problem_id)
    (ho : AddTestInOp conf Creater_user_id problem_id case_id body o) : Apart user title o := by
  cases ho with
  | setMarker => exact inCaseName_not_mem huser hid
  | _ => trivial

theorem addTestOutOp_apart (huser : Plain user) (hid : Plain problem_id) (hne : problem_id ≠ title)
    (ho : AddTestOutOp conf Creater_user_id problem_id case_id body o) : Apart user title o := by
  cases ho with
  | count => exact counterKey_not_mem huser hid
  | delMarker => exact inCaseName_not_mem huser hid
  | insertTestCase => exact hne
  | _ => trivial

theorem loginOp_apart {lib : Library} {req : HttpReq} (ho : UserInfo.LoginOp lib req o) :
    Apart user title o := by
  cases ho with
  | setSession token username => exact session_not_mem token
  | _ => trivial

theorem registOp_apart {lib : Library} {req : HttpReq} (ho : UserInfo.RegistOp lib req o) :
    Apart user title o := by
  cases ho <;> trivial

theorem problemListOp_apart {beginID : String} (ho : ProblemListOp beginID o) :
    Apart user title o := by
  cases ho <;> trivial

end Handlers

/-! ### The session check -/

/-- The session check of a request, its first operation, has found the user. -/
def Found (h : List (Event effects)) (user : String) : Prop :=
  ∃ key, Storage.IsSession key ∧ h.getLast? = some ⟨.get key, some user⟩

theorem Found.cons {h : List (Event effects)} {user : String} (hfound : Found h user)
    (e : Event effects) : Found (e :: h) user := by
  obtain ⟨key, hkey, hlast⟩ := hfound
  refine ⟨key, hkey, ?_⟩
  rw [List.getLast?_cons, hlast]
  rfl

/-- What a request does is what its handler does for the user that the session check has found. -/
def Does (K : String → Op → Prop) (h : List (Event effects)) (o : Op) : Prop :=
  (∃ key, o = .get key) ∨ (∃ code, o = .set_status_code code) ∨
    ∃ user_name, Found h user_name ∧ K user_name o

theorem session_does {K : String → Op → Prop} {req : HttpReq} {next : String → Code Unit}
    (hnext : ∀ user_name, (next user_name).Only (K user_name)) :
    (session req next).Wp (Records fun _ _ => True) (Does K) (fun _ _ => True) [] := by
  unfold session
  split
  · trivial
  · next key hkey =>
    obtain ⟨token, -, rfl⟩ := Option.map_eq_some_iff.mp hkey
    refine ⟨.inl ⟨_, rfl⟩, ?_⟩
    rintro v _ ⟨-, rfl⟩
    simp only [Prog.bind_eq, Prog.ret_bind, Prog.pure_eq]
    split
    · exact ⟨.inr (.inl ⟨_, rfl⟩), fun _ _ _ => trivial⟩
    · next hv =>
      cases v with
      | none => exact absurd rfl hv
      | some user_name =>
        have hfound : Found [⟨.get (sessionKey token), some user_name⟩] user_name :=
          ⟨sessionKey token, Storage.isSession_append _, rfl⟩
        refine ((hnext user_name).wp (I := fun h => Found h user_name) ?_ ?_ hfound).mono
          (fun _ _ => id) fun _ _ _ => trivial
        · exact fun h o ho hfound => .inr (.inr ⟨user_name, hfound, ho⟩)
        · rintro h o r _ - hfound ⟨-, rfl⟩
          exact hfound.cons _

/-! ### Requests with ordinary names -/

/-- The names of a server in which the keys of the pair are its own. -/
structure OrdinaryNames (lib : Library) (user title : String) (requests : Nat → Storage.Request)
    (m : Storage.Memory) : Prop where
  user_plain : Plain user
  title_plain : Plain title
  accounts : ∀ account ∈ m.user_table, Plain account.username
  registered : ∀ t, (requests t).handler = .userRegist →
    Plain (text ((lib.form_kv (requests t).req.body).get "username"))
  titles : ∀ t, ∀ KVpairs ∈ (requests t).req.KVpairs, Plain (text (KVpairs.get "porblem_title"))
  ids : ∀ t, Storage.ChecksRole (requests t).handler = true →
    ∀ KVpairs ∈ (requests t).req.KVpairs, Plain (text (KVpairs.get "problem_id")) ∧
      ¬Storage.IsSession (text (KVpairs.get "problem_id"))

/-- No request uploads the problem or one of its tests. -/
def NotUploaded (title : String) (requests : Nat → Storage.Request) : Prop :=
  ∀ t, Storage.ChecksRole (requests t).handler = true →
    ∀ KVpairs ∈ (requests t).req.KVpairs, text (KVpairs.get "problem_id") ≠ title

section Requests

variable {lib : Library} {user title : String} {requests : Nat → Storage.Request}
  {m : Storage.Memory} {t : Nat}

/-- When the session checks find plain names, the operations of a request outside the pair are apart
from it. -/
def ApartUnlessMember (user title : String) (requests : Nat → Storage.Request) (t : Nat)
    (h : List (Event effects)) (o : Op) : Prop :=
  (∀ user_name, Found h user_name → Plain user_name) →
    (h.getLast?.any (grants user) = true → pairThread title (requests t) t = none) →
      Apart user title o

theorem Does.apart {K : String → Op → Prop} {h : List (Event effects)} {o : Op}
    (hdoes : Does K h o) (hapart : ∀ user_name, Plain user_name →
      (user_name = user → pairThread title (requests t) t = none) → K user_name o →
        Apart user title o) : ApartUnlessMember user title requests t h o := by
  intro hplain hmember
  obtain ⟨key, rfl⟩ | ⟨code, rfl⟩ | ⟨user_name, hfound, ho⟩ := hdoes
  · trivial
  · trivial
  · refine hapart user_name (hplain user_name hfound) ?_ ho
    rintro rfl
    obtain ⟨key, -, hlast⟩ := hfound
    refine hmember ?_
    rw [hlast]
    exact decide_eq_true rfl

theorem request_apart (hnames : OrdinaryNames lib user title requests m)
    (huploads : NotUploaded title requests) (t : Nat) :
    ((requests t).prog lib).Wp (Records fun _ _ => True) (ApartUnlessMember user title requests t)
      (fun _ _ => True) [] := by
  obtain ⟨hplain, htitle, -, -, htitles, hids⟩ := hnames
  have hparams : ∀ {K : (String → String) → String → Op → Prop}
      {next : (String → String) → String → Code Unit},
      (∀ KVpairs user_name, (next KVpairs user_name).Only (K KVpairs user_name)) →
      (∀ KVpairs, (requests t).req.KVpairs = some KVpairs → ∀ user_name o, Plain user_name →
        (user_name = user → pairThread title (requests t) t = none) →
          K (fun name => text (KVpairs.get name)) user_name o → Apart user title o) →
      (withParams (requests t).req fun KVpairs => session (requests t).req (next KVpairs)).Wp
        (Records fun _ _ => True) (ApartUnlessMember user title requests t) (fun _ _ => True) [] := by
    intro K next hnext hapart
    unfold withParams
    split
    · trivial
    · next KVpairs hKVpairs =>
      refine (session_does fun user_name => hnext _ user_name).mono (fun h o hdoes => ?_)
        fun _ _ => id
      exact hdoes.apart fun user_name => hapart KVpairs hKVpairs user_name o
  have honly : ∀ {p : Code Unit}, p.Only (Apart user title) → p.Wp (Records fun _ _ => True)
      (ApartUnlessMember user title requests t) (fun _ _ => True) [] := fun h =>
    (h.wp (I := fun _ => True) (fun _ _ ho _ _ _ => ho) (fun _ _ _ _ _ _ _ => trivial) trivial).mono
      (fun _ _ => id) fun _ _ => id
  unfold Storage.Request.prog
  cases hhandler : (requests t).handler with
  | userRegist => exact honly ((UserInfo.userRegist_only lib _).mono fun _ => registOp_apart)
  | userLogin => exact honly ((UserInfo.userLogin_only lib _).mono fun _ => loginOp_apart)
  | runCpp =>
    refine hparams (fun KVpairs user_name => runCpp_only ..) fun KVpairs hKVpairs user_name o
      huser hthread ho => submissionOp_apart (disjoint_keysOf_of_plain hplain htitle huser
        (htitles t KVpairs hKVpairs) ?_) ho
    rintro ⟨rfl, htitle⟩
    have hnone := hthread rfl
    simp [pairThread, hKVpairs, htitle, hhandler] at hnone
  | runState =>
    refine hparams (fun KVpairs user_name => runState_only ..) fun KVpairs hKVpairs user_name o
      huser hthread ho => ?_
    have hne : ¬(user_name = user ∧ text (KVpairs.get "porblem_title") = title) := by
      rintro ⟨rfl, htitle⟩
      have hnone := hthread rfl
      simp [pairThread, hKVpairs, htitle, hhandler] at hnone
    exact stateOp_apart hne (disjoint_keysOf_of_plain hplain htitle huser
      (htitles t KVpairs hKVpairs) hne) ho
  | add_problem =>
    refine hparams (fun KVpairs user_name => add_problem_only ..) fun KVpairs hKVpairs user_name o
      _ _ ho => ?_
    have hupload : Storage.ChecksRole (requests t).handler = true := by rw [hhandler]; rfl
    exact addProblemOp_apart hplain (hids t hupload KVpairs hKVpairs).1
      (huploads t hupload KVpairs hKVpairs) ho
  | add_test_in =>
    refine hparams (fun KVpairs user_name => add_test_in_only ..) fun KVpairs hKVpairs user_name o
      _ _ ho => ?_
    have hupload : Storage.ChecksRole (requests t).handler = true := by rw [hhandler]; rfl
    exact addTestInOp_apart hplain (hids t hupload KVpairs hKVpairs).1 ho
  | add_test_out =>
    refine hparams (fun KVpairs user_name => add_test_out_only ..) fun KVpairs hKVpairs user_name o
      _ _ ho => ?_
    have hupload : Storage.ChecksRole (requests t).handler = true := by rw [hhandler]; rfl
    exact addTestOutOp_apart hplain (hids t hupload KVpairs hKVpairs).1
      (huploads t hupload KVpairs hKVpairs) ho
  | get_problem_list =>
    exact hparams (fun KVpairs user_name => get_problem_list_only _) fun _ _ _ _ _ _ ho =>
      problemListOp_apart ho

end Requests

/-! ### Runs -/

/-- The operation adds no account but the one that its request registers. -/
def AddsRegistered (lib : Library) (request : Storage.Request) (o : Op) : Prop :=
  ∀ username password_hash role, o = .query (.insertUser username password_hash role) →
    request.handler = .userRegist ∧
      username = text ((lib.form_kv request.req.body).get "username")

theorem request_addsRegistered (lib : Library) (request : Storage.Request) :
    (request.prog lib).Only (AddsRegistered lib request) := by
  obtain ⟨handler, req⟩ := request
  have hget : ∀ key, AddsRegistered lib ⟨handler, req⟩ (.get key) := fun _ _ _ _ h => nomatch h
  have hstatus : ∀ code, AddsRegistered lib ⟨handler, req⟩ (.set_status_code code) :=
    fun _ _ _ _ h => nomatch h
  unfold Storage.Request.prog
  cases handler with
  | userRegist =>
    refine (UserInfo.userRegist_only lib req).mono fun o ho username password_hash role h => ?_
    cases ho with
    | insertUser hash hrole =>
      cases h
      exact ⟨rfl, rfl⟩
    | _ => cases h
  | userLogin =>
    refine (UserInfo.userLogin_only lib req).mono fun o ho username password_hash role h => ?_
    cases ho <;> cases h
  | runCpp =>
    refine withParams_only fun _ _ => session_only hget (hstatus _) fun _ => ?_
    refine (runCpp_only ..).mono fun o ho username password_hash role h => ?_
    cases ho with
    | job task hpath hname ho => cases ho <;> cases h
    | _ => cases h
  | runState =>
    refine withParams_only fun _ _ => session_only hget (hstatus _) fun _ => ?_
    refine (runState_only ..).mono fun o ho username password_hash role h => ?_
    cases ho <;> cases h
  | add_problem =>
    refine withParams_only fun _ _ => session_only hget (hstatus _) fun _ => ?_
    refine (add_problem_only ..).mono fun o ho username password_hash role h => ?_
    cases ho <;> cases h
  | add_test_in =>
    refine withParams_only fun _ _ => session_only hget (hstatus _) fun _ => ?_
    refine (add_test_in_only ..).mono fun o ho username password_hash role h => ?_
    cases ho <;> cases h
  | add_test_out =>
    refine withParams_only fun _ _ => session_only hget (hstatus _) fun _ => ?_
    refine (add_test_out_only ..).mono fun o ho username password_hash role h => ?_
    cases ho <;> cases h
  | get_problem_list =>
    refine withParams_only fun _ _ => session_only hget (hstatus _) fun _ => ?_
    refine (get_problem_list_only _).mono fun o ho username password_hash role h => ?_
    cases ho <;> cases h

section Runs

variable {lib : Library} {mayFail : Op → Bool} {user title : String}
  {requests : Nat → Storage.Request} {m : Storage.Memory} {t : Nat}
  {ok : Config (Storage.machine lib mayFail) → Nat → Prop} {c : Config (Storage.machine lib mayFail)}

namespace OrdinaryNames

/-- Every account has a plain name. -/
theorem accounts_plain (hnames : OrdinaryNames lib user title requests m)
    (h : Reach ok (Storage.start lib mayFail requests m) c) :
    ∀ account ∈ c.mem.user_table, Plain account.username := by
  refine h.induct (I := fun c : Config (Storage.machine lib mayFail) =>
    ∀ account ∈ c.mem.user_table, Plain account.username) hnames.accounts ?_
  intro c t x o k r m' hr ih _ hp hexec account hmem
  have honly := hr.only (fun t => request_addsRegistered lib (requests t)) t
  rw [hp] at honly
  rw [Config.mem_after] at hmem
  obtain hm | hm := Storage.mem_of_exec hexec
  · rw [hm] at hmem
    exact ih account hmem
  · rw [hm] at hmem
    obtain hold | hnew := Storage.mem_user_table_of_after hmem
    · exact ih account hold
    · obtain ⟨hregist, husername⟩ := honly.1 _ _ _ hnew
      rw [husername]
      exact hnames.registered t hregist

theorem ordinaryIds (hnames : OrdinaryNames lib user title requests m)
    (h : Reach ok (Storage.start lib mayFail requests m) c) :
    Reach (Storage.ordinaryIds requests) (Storage.start lib mayFail requests m) c :=
  h.weaken fun _ t _ _ _ _ hupload KVpairs hKVpairs => (hnames.ids t hupload KVpairs hKVpairs).2

/-- When no session is left over at the beginning, a session check finds plain names only. -/
theorem found_plain (hnames : OrdinaryNames lib user title requests m)
    (hsessions : ∀ key, Storage.IsSession key → m.redis key = none)
    (h : Reach ok (Storage.start lib mayFail requests m) c) {user_name : String}
    (hfound : Found (own t c.trace) user_name) : Plain user_name := by
  obtain ⟨key, hkey, hlast⟩ := hfound
  obtain ⟨later, earlier, htrace⟩ :=
    List.append_of_mem (mem_own.mp (List.mem_of_getLast? hlast))
  obtain ⟨c₀, k, x, m', hr, -, -, -, hexec⟩ := h.past rfl htrace
  have hget : Storage.exec lib mayFail t (.get key) x c₀.mem = some (some user_name, m') := hexec
  obtain ⟨-, hfail, -⟩ | ⟨hv, -⟩ := Storage.exec_cases hget
  · cases hfail
  obtain ⟨-, -, -, account, hmem, rfl, -⟩ :=
    Storage.bound_loggedIn hsessions (hnames.ordinaryIds hr) hkey hv.symm
  exact hnames.accounts_plain hr account hmem

/-- With ordinary names, the requests outside the pair keep apart from it. -/
theorem keepsApart (hnames : OrdinaryNames lib user title requests m)
    (huploads : NotUploaded title requests)
    (hsessions : ∀ key, Storage.IsSession key → m.redis key = none)
    (h : Reach ok (Storage.start lib mayFail requests m) c) (t : Nat) :
    keepsApart user title requests c t := by
  intro hmember o hnext
  obtain ⟨k, hp⟩ := Prog.next?_eq_some.mp hnext
  have hwp := h.history_op t rfl (request_apart hnames huploads t) fun _ _ _ _ _ _ _ _ _ => trivial
  rw [hp] at hwp
  refine hwp.1 (fun user_name hfound => hnames.found_plain hsessions h hfound) fun hentered => ?_
  rwa [member, entered, if_pos hentered] at hmember

end OrdinaryNames

end Runs

end OJJudge.Server
